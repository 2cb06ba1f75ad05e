import Ns3.Network.Address
import Ns3.Lib.Machine
import Ns3.Lib.Store

/-!
# Duplicates and fragments

`MacRxMiddle` (`wifi/model/mac-rx-middle.cc`) drops duplicates and puts fragmented MSDUs together, with a status for
each originator, or for each originator and TID. A packet is a list of pieces, of whatever type: `AddAtEnd` appends
them, and nothing else is done with them. The frames that are received are the fragments of MSDUs.
-/

namespace Ns3

open Lib

/-- The lowest bit of the first octet is set. -/
def Mac48Address.IsGroup (addr : Mac48Address) : Prop := addr.address[0] &&& 1 = 1
deriving Decidable

/-- What the receiving side uses of a `WifiMacHeader`, of a data or management frame. -/
structure RxHeader where
  addr1 : Mac48Address
  addr2 : Mac48Address
  qosData : Bool
  qosTid : ℕ
  /-- `m_ctrlRetry`. -/
  retry : Bool
  /-- `m_ctrlMoreFrag`. -/
  moreFragments : Bool
  /-- `m_seqSeq`. -/
  sequenceNumber : ℕ
  /-- `m_seqFrag`. -/
  fragmentNumber : ℕ

/-- `GetSequenceControl`. -/
def RxHeader.sequenceControl (hdr : RxHeader) : ℕ := hdr.sequenceNumber * 16 + hdr.fragmentNumber

/-- Who a status is kept for: an originator, and a TID in `m_qosOriginatorStatus`. -/
abbrev Originator := Mac48Address × Option ℕ

/-- The originator of a frame, as `Lookup` has it. -/
def RxHeader.originator (hdr : RxHeader) : Originator :=
  (hdr.addr2, if hdr.qosData = true ∧ ¬ hdr.addr2.IsGroup then some hdr.qosTid else none)

section

variable {α : Type}

/-- What is kept for an originator. -/
structure OriginatorRxStatus (α : Type) where
  defragmenting : Bool
  lastSequenceControl : ℕ
  fragments : List (List α)

namespace OriginatorRxStatus

/-- `OriginatorRxStatus ()`. -/
def new : OriginatorRxStatus α := ⟨false, 0xffff, []⟩

variable (s : OriginatorRxStatus α)

variable (packet : List α)

/-- The first fragment is kept. -/
def accumulateFirstFragment : OriginatorRxStatus α :=
  { s with defragmenting := true, fragments := s.fragments ++ [packet] }

/-- The last fragment: the packet is whole. -/
def accumulateLastFragment : List α × OriginatorRxStatus α :=
  ((s.fragments ++ [packet]).flatten, { s with defragmenting := false, fragments := [] })

/-- One more fragment is kept. -/
def accumulateFragment : OriginatorRxStatus α :=
  { s with fragments := s.fragments ++ [packet] }

/-- The number is the same and the fragment the next one. -/
def IsNextFragment (sequenceControl : ℕ) : Prop :=
  sequenceControl / 16 = s.lastSequenceControl / 16 ∧ sequenceControl % 16 = s.lastSequenceControl % 16 + 1
deriving Decidable

/-- The number that was received last. -/
def setSequenceControl (sequenceControl : ℕ) : OriginatorRxStatus α :=
  { s with lastSequenceControl := sequenceControl }

/-- It is sent again, with the number that was received last. -/
def IsDuplicate (hdr : RxHeader) : Prop :=
  hdr.retry = true ∧ s.lastSequenceControl = hdr.sequenceControl
deriving Decidable

/-- A fragment is kept, or makes a packet whole, or is dropped. -/
def handleFragments (hdr : RxHeader) :
    Option (List α) × OriginatorRxStatus α :=
  if s.defragmenting then
    if hdr.moreFragments then
      if s.IsNextFragment hdr.sequenceControl then
        (none, (s.accumulateFragment packet).setSequenceControl hdr.sequenceControl)
      else (none, s)
    else
      if s.IsNextFragment hdr.sequenceControl then
        let (p, s) := s.accumulateLastFragment packet
        (some p, s.setSequenceControl hdr.sequenceControl)
      else (none, s)
  else
    if hdr.moreFragments then (none, (s.accumulateFirstFragment packet).setSequenceControl hdr.sequenceControl)
    else (some packet, s)

/-- What `Receive` forwards, and the status that it leaves. -/
def receive (hdr : RxHeader) :
    Option (List α) × OriginatorRxStatus α :=
  if s.IsDuplicate hdr then (none, s)
  else
    match s.handleFragments packet hdr with
    | (none, s) => (none, s)
    | (some p, s) => (some p, if hdr.addr1.IsGroup then s else s.setSequenceControl hdr.sequenceControl)

end OriginatorRxStatus

/-- What is kept, for each originator and for each of its TIDs. -/
structure MacRxMiddle (α : Type) where
  originatorStatus : Store Mac48Address (OriginatorRxStatus α)
  qosOriginatorStatus : Store (Mac48Address × ℕ) (OriginatorRxStatus α)

namespace MacRxMiddle

/-- No frame was received yet. -/
def new : MacRxMiddle α := ⟨∅, ∅⟩

variable (m : MacRxMiddle α)

/-- `Lookup`. -/
def status : Originator → OriginatorRxStatus α
  | (source, none) => (m.originatorStatus.lookup source).getD .new
  | (source, some tid) => (m.qosOriginatorStatus.lookup (source, tid)).getD .new

/-- The status is changed. -/
def setStatus (s : OriginatorRxStatus α) : Originator → MacRxMiddle α
  | (source, none) => { m with originatorStatus := m.originatorStatus.insert source s }
  | (source, some tid) => { m with qosOriginatorStatus := m.qosOriginatorStatus.insert (source, tid) s }

/-- `Receive`, with the packet that is forwarded. -/
def receive (m : MacRxMiddle α) (packet : List α) (hdr : RxHeader) : Option (List α) × MacRxMiddle α :=
  let (forwarded, s) := (m.status hdr.originator).receive packet hdr
  (forwarded, m.setStatus s hdr.originator)

theorem status_setStatus (s : OriginatorRxStatus α) (o o' : Originator) :
    (m.setStatus s o).status o' = if o' = o then s else m.status o' := by
  obtain ⟨source, tid⟩ := o
  obtain ⟨source', tid'⟩ := o'
  cases tid with
  | none =>
    cases tid' with
    | none =>
      by_cases h : source' = source
      · subst h
        simp [status, setStatus]
      · simp [status, setStatus, h, AList.lookup_insert_ne]
    | some tid' => simp [status, setStatus]
  | some tid =>
    cases tid' with
    | none => simp [status, setStatus]
    | some tid' =>
      by_cases h : (source', tid') = (source, tid)
      · obtain ⟨rfl, rfl⟩ := Prod.mk.inj h
        simp [status, setStatus]
      · have hne : ¬ (source' = source ∧ tid' = tid) := fun heq => h (by rw [heq.1, heq.2])
        simp [status, setStatus, AList.lookup_insert_ne h, hne]

end MacRxMiddle

end

/-! ### MSDUs and their fragments -/

/-- An MSDU that is sent. -/
structure Msdu where
  id : ℕ
  addr1 : Mac48Address
  addr2 : Mac48Address
  /-- It is sent in QoS data frames. -/
  qosData : Bool
  qosTid : ℕ
  /-- The sequence number of its frames. -/
  sequenceNumber : ℕ
  /-- How many fragments there are: one for an unfragmented MSDU. -/
  fragments : ℕ
  sequenceNumber_lt : sequenceNumber < 4096
  fragments_pos : 0 < fragments
  fragments_le : fragments ≤ 16
  deriving DecidableEq

/-- The content of a fragment. -/
abbrev Piece := Msdu × ℕ

/-- A frame: a fragment of an MSDU, which may be sent again. -/
structure Frame where
  msdu : Msdu
  /-- The number of the fragment. -/
  fragment : ℕ
  /-- The fragment was sent before. -/
  retry : Bool
  fragment_lt : fragment < msdu.fragments

/-- The originator of an MSDU. -/
def Msdu.originator (m : Msdu) : Originator :=
  (m.addr2, if m.qosData = true ∧ ¬ m.addr2.IsGroup then some m.qosTid else none)

/-- The first `n` fragments of an MSDU. -/
def Msdu.first (m : Msdu) (n : ℕ) : List Piece := (List.range n).map fun i => (m, i)

/-- The content of an MSDU. -/
def Msdu.content (m : Msdu) : List Piece := m.first m.fragments

/-- The content of a frame. -/
def Frame.piece (f : Frame) : Piece := (f.msdu, f.fragment)

/-- The header of a frame. -/
def Frame.hdr (f : Frame) : RxHeader where
  addr1 := f.msdu.addr1
  addr2 := f.msdu.addr2
  qosData := f.msdu.qosData
  qosTid := f.msdu.qosTid
  retry := f.retry
  moreFragments := decide (f.fragment + 1 < f.msdu.fragments)
  sequenceNumber := f.msdu.sequenceNumber
  fragmentNumber := f.fragment

/-- A receiver, with the frames that it was given and the packets that it forwarded. -/
structure Receiver where
  /-- The `MacRxMiddle`. -/
  middle : MacRxMiddle Piece
  /-- The frames, the oldest first. -/
  received : List Frame
  /-- The packets, and whom they are from. -/
  forwarded : List (Originator × List Piece)

namespace Receiver

/-- Nothing was received. -/
def new : Receiver := ⟨.new, [], []⟩

/-- A frame is given to `Receive`. -/
def receive (r : Receiver) (f : Frame) : Receiver :=
  let (p, middle) := r.middle.receive [f.piece] f.hdr
  ⟨middle, r.received ++ [f], r.forwarded ++ (p.toList.map fun p => (f.hdr.originator, p))⟩

/-- The receiver: any frame may come. -/
def machine : Machine Receiver Frame where
  enabled _ _ := True
  exec r f := some (r.receive f)

instance (r : Receiver) (f : Frame) : Decidable (machine.enabled r f) := .isTrue trivial

end Receiver

end Ns3
