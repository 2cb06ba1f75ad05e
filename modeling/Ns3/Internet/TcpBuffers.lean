import Ns3.Network.SequenceNumber
import Mathlib.Algebra.Group.Nat.Defs
import Mathlib.Data.List.Basic

/-!
# The buffers of a TCP socket

`TcpRxBuffer` and `TcpTxBuffer` (`internet/model/tcp-rx-buffer.cc`, `tcp-tx-buffer.cc`), and the history that
`RttEstimator` keeps of the segments sent (`internet/model/rtt-estimator.cc`). A packet is the list of its bytes.
-/

namespace Ns3

/-- `p->GetSize ()`. -/
def packetSize (p : List UInt8) : UInt32 := UInt32.ofNat p.length

/-- The bytes from `start` on. -/
def createFragment (p : List UInt8) (start length : UInt32) : List UInt8 := (p.drop start.toNat).take length.toNat

/-- What came out of order or was not read, by sequence numbers. -/
structure TcpRxBuffer where
  nextRxSeq : SequenceNumber32
  finSeq : SequenceNumber32
  gotFin : Bool
  size : UInt32
  maxBuffer : UInt32
  availBytes : UInt32
  /-- `m_data`, in the order of its keys. -/
  data : List (SequenceNumber32 × List UInt8)

namespace TcpRxBuffer

/-- `TcpRxBuffer (n)`. -/
def new (n : UInt32) : TcpRxBuffer := ⟨.ofUInt32 n, ⟨0⟩, false, 0, 32768, 0, []⟩

variable (b : TcpRxBuffer)

/-- The number that is expected. -/
def setNextRxSequence (s : SequenceNumber32) : TcpRxBuffer := { b with nextRxSeq := s }

/-- The buffer holds so many bytes. -/
def setMaxBufferSize (s : UInt32) : TcpRxBuffer := { b with maxBuffer := s }

/-- The number behind the last one that is accepted. -/
def maxRxSequence : SequenceNumber32 :=
  if b.gotFin then b.finSeq
  else match b.data with
    | first :: _ => first.1.plus b.maxBuffer
    | [] => b.nextRxSeq.plus b.maxBuffer

/-- The number of the FIN; it is taken if all bytes before it are there. -/
def setFinSequence (s : SequenceNumber32) : TcpRxBuffer :=
  let b := { b with gotFin := true, finSeq := s }
  if b.nextRxSeq = b.finSeq then { b with nextRxSeq := b.nextRxSeq.next } else b

/-- All bytes before the FIN, and it, have come. -/
def finished : Bool := b.gotFin && b.finSeq.lt b.nextRxSeq

/-- `m_data [ key ] = p`. -/
def insert (key : SequenceNumber32) (p : List UInt8) :
    List (SequenceNumber32 × List UInt8) → List (SequenceNumber32 × List UInt8)
  | [] => [(key, p)]
  | (k, q) :: rest =>
    if key.lt k then (key, p) :: (k, q) :: rest
    else if k.lt key then (k, q) :: insert key p rest
    else (k, p) :: rest

/-- The loop of `Add` that takes what overlaps off the new packet, which goes from `headSeq` to `tailSeq`: the packets
kept, the size of those erased, and what is left of the new one. -/
def removeOverlap (headSeq tailSeq : SequenceNumber32) : List (SequenceNumber32 × List UInt8) →
    List (SequenceNumber32 × List UInt8) × UInt32 × SequenceNumber32 × SequenceNumber32
  | [] => ([], 0, headSeq, tailSeq)
  | (first, p) :: rest =>
    if first.le tailSeq then
      let lastByteSeq := first.plus (packetSize p)
      if lastByteSeq.gt headSeq then
        if first.gt headSeq && lastByteSeq.lt tailSeq then
          let (kept, erased, bounds) := removeOverlap headSeq tailSeq rest
          (kept, erased + packetSize p, bounds)
        else
          let headSeq' := if first.le headSeq then lastByteSeq else headSeq
          let tailSeq' := if lastByteSeq.ge tailSeq then first else tailSeq
          let (kept, rest) := removeOverlap headSeq' tailSeq' rest
          ((first, p) :: kept, rest)
      else
        let (kept, rest) := removeOverlap headSeq tailSeq rest
        ((first, p) :: kept, rest)
    else ((first, p) :: rest, 0, headSeq, tailSeq)

/-- The loop of `Add` over the packets that are now in sequence. -/
def advance (nextRxSeq : SequenceNumber32) (availBytes : UInt32) :
    List (SequenceNumber32 × List UInt8) → SequenceNumber32 × UInt32
  | [] => (nextRxSeq, availBytes)
  | (first, p) :: rest =>
    if first.lt nextRxSeq then advance nextRxSeq availBytes rest
    else if first.gt nextRxSeq then (nextRxSeq, availBytes)
    else advance (first.plus (packetSize p)) (availBytes + packetSize p) rest

/-- `Add`: whether something was buffered, and the buffer. -/
def add (p : List UInt8) (seq : SequenceNumber32) : Bool × TcpRxBuffer :=
  let tailSeq := seq.plus (packetSize p)
  let headSeq := if seq.lt b.nextRxSeq then b.nextRxSeq else seq
  -- trim the packet to the window
  let maxSeq := (b.data.head?.map fun first => first.1.plus b.maxBuffer).getD tailSeq
  let tailSeq := if maxSeq.lt tailSeq then maxSeq else tailSeq
  let headSeq := if b.data ≠ [] ∧ tailSeq.lt headSeq then tailSeq else headSeq
  let (kept, erased, headSeq, tailSeq) := removeOverlap headSeq tailSeq b.data
  let b := { b with data := kept, size := b.size - erased }
  if headSeq.ge tailSeq then (false, b)
  else
    let p := createFragment p (headSeq.minus seq) (tailSeq.minus headSeq)
    let data := insert headSeq p b.data
    let (nextRxSeq, availBytes) := advance b.nextRxSeq b.availBytes data
    let b := { b with data, size := b.size + packetSize p, nextRxSeq, availBytes }
    (true, if b.gotFin ∧ b.nextRxSeq = b.finSeq then { b with nextRxSeq := b.nextRxSeq.next } else b)

/-- The loop of `Extract`: the bytes taken, and the packets left. -/
def take : List (SequenceNumber32 × List UInt8) → UInt32 → List UInt8 × List (SequenceNumber32 × List UInt8)
  | [], _ => ([], [])
  | (first, p) :: rest, extractSize =>
    if extractSize = 0 then ([], (first, p) :: rest)
    else if packetSize p ≤ extractSize then
      let (taken, left) := take rest (extractSize - packetSize p)
      (p ++ taken, left)
    else
      (createFragment p 0 extractSize,
        insert (first.plus extractSize) (createFragment p extractSize (packetSize p - extractSize)) rest)

/-- `Extract`: the packet, if there is one, and the buffer. -/
def extract (maxSize : UInt32) : Option (List UInt8) × TcpRxBuffer :=
  let extractSize := min maxSize b.availBytes
  if extractSize = 0 then (none, b)
  else
    let (taken, left) := take b.data extractSize
    (if taken = [] then none else some taken,
      { b with data := left, size := b.size - extractSize, availBytes := b.availBytes - extractSize })

end TcpRxBuffer

/-- The bytes that are not yet acknowledged. -/
structure TcpTxBuffer where
  firstByteSeq : SequenceNumber32
  size : UInt32
  maxBuffer : UInt32
  data : List (List UInt8)

namespace TcpTxBuffer

/-- `TcpTxBuffer (n)`. -/
def new (n : UInt32) : TcpTxBuffer := ⟨.ofUInt32 n, 0, 32768, []⟩

variable (b : TcpTxBuffer)

/-- The buffer holds so many bytes. -/
def setMaxBufferSize (n : UInt32) : TcpTxBuffer := { b with maxBuffer := n }

variable (seq : SequenceNumber32)

/-- The number of the first byte. -/
def setHeadSequence : TcpTxBuffer := { b with firstByteSeq := seq }

/-- The room that is left. -/
def available : UInt32 := b.maxBuffer - b.size

/-- `Add`: whether there was room, and the buffer. -/
def add (p : List UInt8) : Bool × TcpTxBuffer :=
  if packetSize p ≤ b.available then
    (true, if packetSize p > 0 then { b with data := b.data ++ [p], size := b.size + packetSize p } else b)
  else (false, b)

/-- How many bytes there are from a number on. -/
def sizeFromSequence : UInt32 := (b.firstByteSeq.plus b.size).minus seq

/-- The loop of `CopyFromSequence`: `count` is the offset of the packet, `out` what was copied once the first byte is
found. -/
def copyLoop (offset s : UInt32) : UInt32 → Option (List UInt8) → List (List UInt8) → Option (List UInt8)
  | _, out, [] => out
  | count, none, p :: rest =>
    if count + packetSize p > offset then
      let packetOffset := offset - count
      let fragmentLength := count + packetSize p - offset
      if fragmentLength ≥ s then some (createFragment p packetOffset s)
      else copyLoop offset s (count + packetSize p) (some (createFragment p packetOffset fragmentLength)) rest
    else copyLoop offset s (count + packetSize p) none rest
  | count, some out, p :: rest =>
    if count + packetSize p ≥ offset + s then some (out ++ createFragment p 0 (offset + s - count))
    else copyLoop offset s (count + packetSize p) (some (out ++ p)) rest

/-- `CopyFromSequence`: the null pointer where the sequence number is not in the buffer. -/
def copyFromSequence (numBytes : UInt32) (seq : SequenceNumber32) : Option (List UInt8) :=
  let s := min numBytes (b.sizeFromSequence seq)
  if s = 0 then some []
  else if b.data = [] then some (List.replicate s.toNat 0)
  else copyLoop (seq.minus b.firstByteSeq) s 0 none b.data

/-- The loop of `DiscardUpTo`. -/
def discardLoop (b : TcpTxBuffer) : UInt32 → List (List UInt8) → TcpTxBuffer
  | _, [] => { b with data := [] }
  | offset, p :: rest =>
    if offset > packetSize p then
      discardLoop { b with size := b.size - packetSize p, firstByteSeq := b.firstByteSeq.plus (packetSize p) }
        (offset - packetSize p) rest
    else
      { b with
        data := createFragment p offset (packetSize p - offset) :: rest
        size := b.size - offset
        firstByteSeq := b.firstByteSeq.plus offset }

/-- The bytes before a number are removed. -/
def discardUpTo : TcpTxBuffer :=
  if b.firstByteSeq.ge seq then b
  else
    let b := b.discardLoop (seq.minus b.firstByteSeq) b.data
    if b.size = 0 then { b with firstByteSeq := seq } else b

end TcpTxBuffer

/-- A segment that was sent, with its time. -/
structure RttHistory where
  seq : SequenceNumber32
  count : UInt32
  time : Int
  retx : Bool
  deriving DecidableEq

/-- The segments whose times are measured. -/
structure RttEstimator where
  /-- The next sequence number to be sent. -/
  next : SequenceNumber32
  history : List RttHistory

namespace RttEstimator

/-- `RttEstimator ()`, and what `Reset` does to it. -/
def new : RttEstimator := ⟨⟨1⟩, []⟩

/-- The loop of `SentSeq` for a segment that is sent again. -/
def markRetx (next s : SequenceNumber32) (c : UInt32) : List RttHistory → SequenceNumber32 × List RttHistory
  | [] => (next, [])
  | h :: rest =>
    if s.ge h.seq && s.lt (h.seq.plus h.count) then
      if (s.plus c).gt next then (s.plus c, { h with retx := true, count := (s.plus c).minus h.seq } :: rest)
      else (next, { h with retx := true } :: rest)
    else
      let (next, rest) := markRetx next s c rest
      (next, h :: rest)

variable (r : RttEstimator)

/-- A segment is recorded; one sent again is marked. -/
def sentSeq (now : Int) (s : SequenceNumber32) (c : UInt32) : RttEstimator :=
  if s = r.next then ⟨s.plus c, r.history ++ [⟨s, c, now, false⟩]⟩
  else
    let (next, history) := markRetx r.next s c r.history
    ⟨next, history⟩

/-- The sample that `AckSeq` takes. -/
def sample (now : Int) (a : SequenceNumber32) : Option Int :=
  match r.history with
  | [] => none
  | h :: _ => if !h.retx && a.ge (h.seq.plus h.count) then some (now - h.time) else none

/-- `AckSeq`, less the sample. -/
def ackSeq (a : SequenceNumber32) : RttEstimator :=
  { r with history := r.history.dropWhile fun h => !(h.seq.plus h.count).gt a }

end RttEstimator

end Ns3
