import Ns3.Lib.Ring
import Ns3.Network.Iterator
import Mathlib.Data.Nat.Bitwise

/-!
# Block ack headers

`CtrlBAckResponseHeader` (`wifi/model/ctrl-headers.cc`): a block ack names the sequence numbers it acknowledges in a
bitmap that begins at its starting sequence, either one bit for each packet (a compressed block ack) or one for each
fragment (a basic one). Sequence numbers are below 4096. Of the union of the two bitmaps, only the one that the
type selects is used.
-/

namespace Ns3

open Lib Buffer

/-- The variants of block acknowledgements. -/
inductive BlockAckType where
  | basicBlockAck | compressedBlockAck | multiTidBlockAck
  deriving DecidableEq

/-- A block acknowledgement. -/
structure CtrlBAckResponseHeader where
  baAckPolicy : Bool
  multiTid : Bool
  compressed : Bool
  tidInfo : ℕ
  startingSeq : ℕ
  bitmap : List UInt16
  compressedBitmap : UInt64

namespace CtrlBAckResponseHeader

/-- `CtrlBAckResponseHeader ()`, with the fields that it does not set. -/
def new (tidInfo startingSeq : ℕ) : CtrlBAckResponseHeader :=
  ⟨false, false, false, tidInfo, startingSeq, List.replicate 64 0, 0⟩

/-- The flags of the variant. -/
def setType (h : CtrlBAckResponseHeader) : BlockAckType → CtrlBAckResponseHeader
  | .basicBlockAck => { h with multiTid := false, compressed := false }
  | .compressedBlockAck => { h with multiTid := false, compressed := true }
  | .multiTidBlockAck => { h with multiTid := true, compressed := true }

/-- The number is one of the 64 of the bitmap. -/
def IsInBitmap (h : CtrlBAckResponseHeader) (seq : ℕ) : Prop := Ring.ahead 4096 h.startingSeq seq < 64
deriving Decidable

/-- The place of the number in the bitmap, in eight bits. -/
def indexInBitmap (h : CtrlBAckResponseHeader) (seq : ℕ) : ℕ :=
  (if h.startingSeq ≤ seq then seq - h.startingSeq else 4096 - h.startingSeq + seq) % 256

/-- `SetReceivedPacket`, of a block ack for one TID. -/
def setReceivedPacket (h : CtrlBAckResponseHeader) (seq : ℕ) : CtrlBAckResponseHeader :=
  if ¬ h.IsInBitmap seq then h
  else if h.compressed then
    { h with compressedBitmap := h.compressedBitmap ||| (1 <<< UInt64.ofNat (h.indexInBitmap seq)) }
  else { h with bitmap := h.bitmap.modify (h.indexInBitmap seq) (· ||| 1) }

/-- `IsPacketReceived`, of a block ack for one TID. -/
def isPacketReceived (h : CtrlBAckResponseHeader) (seq : ℕ) : Bool :=
  if ¬ h.IsInBitmap seq then false
  else if h.compressed then (h.compressedBitmap >>> UInt64.ofNat (h.indexInBitmap seq)) &&& 1 = 1
  else false

/-- `IsFragmentReceived`, of a block ack for one TID. -/
def isFragmentReceived (h : CtrlBAckResponseHeader) (seq frag : ℕ) : Bool :=
  if ¬ h.IsInBitmap seq then false
  else if h.compressed then (h.compressedBitmap >>> UInt64.ofNat (h.indexInBitmap seq)) &&& 1 = 1
  else (h.bitmap.getD (h.indexInBitmap seq) 0 &&& (1 <<< UInt16.ofNat frag)) ≠ 0

/-- The flags and the TID, in their bits. -/
def getBaControl (h : CtrlBAckResponseHeader) : UInt16 :=
  let flag (set : Bool) (bit : UInt16) : UInt16 := if set then 1 <<< bit else 0
  flag h.baAckPolicy 0 ||| flag h.multiTid 1 ||| flag h.compressed 2 ||| ((UInt16.ofNat h.tidInfo <<< 12) &&& 0xf000)

/-- Flags and TID are read from their bits. -/
def setBaControl (h : CtrlBAckResponseHeader) (ba : UInt16) : CtrlBAckResponseHeader :=
  { h with
    baAckPolicy := ba &&& 1 = 1
    multiTid := (ba >>> 1) &&& 1 = 1
    compressed := (ba >>> 2) &&& 1 = 1
    tidInfo := ((ba >>> 12) &&& 0xf).toNat }

/-- The number in the upper twelve bits. -/
def getStartingSequenceControl (h : CtrlBAckResponseHeader) : UInt16 := (UInt16.ofNat h.startingSeq <<< 4) &&& 0xfff0

/-- The number is read from the upper twelve bits. -/
def setStartingSequenceControl (h : CtrlBAckResponseHeader) (seqControl : UInt16) : CtrlBAckResponseHeader :=
  { h with startingSeq := ((seqControl >>> 4) &&& 0xfff).toNat }

/-- `SerializeBitmap`, of a block ack for one TID. -/
def serializeBitmap (h : CtrlBAckResponseHeader) : List UInt8 :=
  if h.compressed then Iterator.writeHtolsbU64 h.compressedBitmap else h.bitmap.flatMap Iterator.writeHtolsbU16

/-- `DeserializeBitmap`, of a block ack for one TID. -/
def deserializeBitmap (h : CtrlBAckResponseHeader) : Reader CtrlBAckResponseHeader :=
  if h.compressed then (fun bits => { h with compressedBitmap := bits }) <$> Iterator.readLsbtohU64
  else (fun bits => { h with bitmap := bits }) <$> (List.range 64).mapM fun _ => Iterator.readLsbtohU16

/-- `Serialize`: nothing where it stops with a fatal error, at a block ack for several TIDs. -/
def serialize (h : CtrlBAckResponseHeader) : Option (List UInt8) :=
  if h.multiTid then none
  else some (Iterator.writeHtolsbU16 h.getBaControl ++ (Iterator.writeHtolsbU16 h.getStartingSequenceControl ++
    h.serializeBitmap))

/-- `Deserialize`: nothing where it stops with a fatal error. -/
def deserialize (h : CtrlBAckResponseHeader) : Reader (Option CtrlBAckResponseHeader) := do
  let ba ← Iterator.readLsbtohU16
  let h := h.setBaControl ba
  if h.multiTid then pure none
  else do
    let seqControl ← Iterator.readLsbtohU16
    some <$> (h.setStartingSequenceControl seqControl).deserializeBitmap

/-! ### The bitmap -/

variable {h : CtrlBAckResponseHeader}

theorem indexInBitmap_eq {seq : ℕ} (hstart : h.startingSeq < 4096) (hseq : seq < 4096) (hin : h.IsInBitmap seq) :
    h.indexInBitmap seq = Ring.ahead 4096 h.startingSeq seq := by
  rw [IsInBitmap, Ring.ahead] at *
  rw [indexInBitmap]
  split_ifs <;> omega

theorem toNat_shift {k : ℕ} (hk : k < 64) : (UInt64.ofNat k).toNat % 64 = k := by
  rw [UInt64.toNat_ofNat']
  omega

theorem toNat_one_shiftLeft {k : ℕ} (hk : k < 64) : ((1 : UInt64) <<< UInt64.ofNat k).toNat = 2 ^ k := by
  rw [UInt64.toNat_shiftLeft, toNat_shift hk, UInt64.toNat_one, Nat.shiftLeft_eq, Nat.one_mul]
  exact Nat.mod_eq_of_lt (Nat.pow_lt_pow_right (by decide) hk)

theorem bit_eq_one_iff (x : UInt64) {k : ℕ} (hk : k < 64) :
    (x >>> UInt64.ofNat k) &&& 1 = 1 ↔ x.toNat.testBit k = true := by
  rw [← UInt64.toNat_inj, UInt64.toNat_and, UInt64.toNat_shiftRight, toNat_shift hk, UInt64.toNat_one, Nat.testBit,
    Nat.and_comm]
  simp

theorem isPacketReceived_iff {seq : ℕ} (hcompressed : h.compressed = true) (hstart : h.startingSeq < 4096)
    (hseq : seq < 4096) :
    h.isPacketReceived seq = true ↔
      h.IsInBitmap seq ∧ h.compressedBitmap.toNat.testBit (Ring.ahead 4096 h.startingSeq seq) = true := by
  rw [isPacketReceived]
  by_cases hin : h.IsInBitmap seq
  · rw [if_neg (not_not_intro hin), if_pos hcompressed, decide_eq_true_iff, indexInBitmap_eq hstart hseq hin,
      bit_eq_one_iff _ hin, and_iff_right hin]
  · simp [hin]

theorem testBit_setReceivedPacket {seq k : ℕ} (hcompressed : h.compressed = true) (hstart : h.startingSeq < 4096)
    (hseq : seq < 4096) (hin : h.IsInBitmap seq) :
    (h.setReceivedPacket seq).compressedBitmap.toNat.testBit k =
      (h.compressedBitmap.toNat.testBit k || decide (Ring.ahead 4096 h.startingSeq seq = k)) := by
  rw [setReceivedPacket, if_neg (not_not_intro hin), if_pos hcompressed]
  rw [UInt64.toNat_or, Nat.testBit_or, indexInBitmap_eq hstart hseq hin, toNat_one_shiftLeft hin, Nat.testBit_two_pow]

@[simp] theorem startingSeq_setReceivedPacket (h : CtrlBAckResponseHeader) (seq : ℕ) :
    (h.setReceivedPacket seq).startingSeq = h.startingSeq := by
  rw [setReceivedPacket]
  split_ifs <;> rfl

@[simp] theorem compressed_setReceivedPacket (h : CtrlBAckResponseHeader) (seq : ℕ) :
    (h.setReceivedPacket seq).compressed = h.compressed := by
  rw [setReceivedPacket]
  split_ifs <;> rfl

@[simp] theorem multiTid_setReceivedPacket (h : CtrlBAckResponseHeader) (seq : ℕ) :
    (h.setReceivedPacket seq).multiTid = h.multiTid := by
  rw [setReceivedPacket]
  split_ifs <;> rfl

/-! ### Serialization -/

theorem shiftLeft_tid (t : ℕ) : UInt16.ofNat t <<< 12 = UInt16.ofNat (t % 16) <<< 12 := by
  rw [← UInt16.toNat_inj, UInt16.toNat_shiftLeft, UInt16.toNat_shiftLeft]
  simp [Nat.shiftLeft_eq]
  omega

theorem getBaControl_eq (h : CtrlBAckResponseHeader) :
    h.getBaControl = getBaControl ⟨h.baAckPolicy, h.multiTid, h.compressed, h.tidInfo % 16, 0, [], 0⟩ := by
  rw [getBaControl, getBaControl, shiftLeft_tid]

theorem bits_getBaControl : ∀ t < 16, ∀ policy multi compressed : Bool,
    let ba := getBaControl ⟨policy, multi, compressed, t, 0, [], 0⟩
    ba &&& 1 = (if policy then 1 else 0) ∧ (ba >>> 1) &&& 1 = (if multi then 1 else 0) ∧
      (ba >>> 2) &&& 1 = (if compressed then 1 else 0) ∧ ((ba >>> 12) &&& 0xf).toNat = t := by
  decide +kernel

theorem setBaControl_getBaControl (h₀ h : CtrlBAckResponseHeader) :
    h₀.setBaControl h.getBaControl =
      { h₀ with
        baAckPolicy := h.baAckPolicy
        multiTid := h.multiTid
        compressed := h.compressed
        tidInfo := h.tidInfo % 16 } := by
  have hbits := bits_getBaControl (h.tidInfo % 16) (Nat.mod_lt _ (by decide)) h.baAckPolicy h.multiTid h.compressed
  rw [← getBaControl_eq] at hbits
  obtain ⟨hpolicy, hmulti, hcompressed, htid⟩ := hbits
  rw [setBaControl, hpolicy, hmulti, hcompressed, htid]
  cases h.baAckPolicy <;> cases h.multiTid <;> cases h.compressed <;> rfl

theorem setStartingSequenceControl_get {h₀ h : CtrlBAckResponseHeader} (hseq : h.startingSeq < 4096) :
    h₀.setStartingSequenceControl h.getStartingSequenceControl = { h₀ with startingSeq := h.startingSeq } := by
  have hround : ∀ a < 64, ∀ b < 64,
      ((((UInt16.ofNat (64 * a + b) <<< 4) &&& 0xfff0) >>> 4) &&& 0xfff).toNat = 64 * a + b := by
    decide +kernel
  have h := hround (h.startingSeq / 64) (by omega) (h.startingSeq % 64) (by omega)
  rw [Nat.div_add_mod] at h
  rw [setStartingSequenceControl, getStartingSequenceControl, h]

theorem reads_deserialize (h₀ : CtrlBAckResponseHeader) (hmulti : h.multiTid = false)
    (hcompressed : h.compressed = true) (hseq : h.startingSeq < 4096) :
    ∃ bytes, h.serialize = some bytes ∧
      h₀.deserialize.Reads bytes (some { h with tidInfo := h.tidInfo % 16, bitmap := h₀.bitmap }) := by
  refine ⟨_, if_neg (by simp [hmulti]), ?_⟩
  refine (Iterator.reads_readLsbtohU16 _).bind ?_
  rw [setBaControl_getBaControl, if_neg (by simp [hmulti])]
  refine (Iterator.reads_readLsbtohU16 _).bind ?_
  rw [setStartingSequenceControl_get hseq, deserializeBitmap, serializeBitmap, if_pos hcompressed, if_pos hcompressed]
  exact ((Iterator.reads_readLsbtohU64 _).map _).map some

end CtrlBAckResponseHeader

end Ns3
