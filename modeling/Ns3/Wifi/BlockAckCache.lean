import Ns3.Lib.Machine
import Ns3.Wifi.BlockAckHeader

/-!
# The block ack cache

`BlockAckCache` (`wifi/model/block-ack-cache.cc`): what the recipient of a block ack agreement remembers of the
sequence numbers it received, in a ring of 4096 entries and a window of at most 64 that moves over it. Sequence
numbers are 12 bits of a header and so below 4096. A loop that does not end is `none`.
-/

namespace Ns3

open Lib

/-- The number lies in the half behind the start. -/
def QosUtilsIsOldPacket (startingSeq seqNumber : ℕ) : Prop := 2048 ≤ Ring.ahead 4096 startingSeq seqNumber
deriving Decidable

/-- What is left of an integer that is assigned to a `uint16_t`. -/
def uint16 (i : ℤ) : ℕ := (i % 2 ^ 16).toNat

/-- What is left of an integer that is assigned to a `uint32_t`. -/
def uint32 (i : ℤ) : ℕ := (i % 2 ^ 32).toNat

/-- The window of sequence numbers, with what was received. -/
structure BlockAckCache where
  winStart : ℕ
  winSize : ℕ
  winEnd : ℕ
  /-- `m_bitmap`, of 4096 entries. -/
  bitmap : ℕ → UInt16

namespace BlockAckCache

/-- A window of at most 64 numbers. -/
def init (winStart winSize : ℕ) : BlockAckCache where
  winStart
  winSize := if winSize ≤ 64 then winSize else 64
  winEnd := uint16 (((winStart + if winSize ≤ 64 then winSize else 64) % 4096 : ℕ) - 1)
  bitmap _ := 0

variable (c : BlockAckCache)

/-- The numbers from `start` to `stop` are forgotten. -/
def resetPortionOfBitmap (start stop : ℕ) : Option BlockAckCache :=
  (Ring.walk 4096 start stop).map fun visited =>
    { c with bitmap := visited.foldl (fun bitmap i => Function.update bitmap i 0) c.bitmap }

/-- The number is in the window. -/
def IsInWindow (seq : ℕ) : Prop := Ring.ahead 4096 c.winStart seq < c.winSize
deriving Decidable

/-- What `UpdateWithMpdu` does for a sequence number beyond the window. The remainder has the sign of the dividend. -/
def moveTo (seqNumber : ℕ) : Option BlockAckCache :=
  let delta := uint16 (Int.tmod (seqNumber - c.winEnd + 4096) 4096)
  let cleared :=
    if delta > 1 then c.resetPortionOfBitmap ((c.winEnd + 1) % 4096) ((seqNumber + 4095) % 4096) else some c
  cleared.map fun c => { c with winStart := (c.winStart + delta) % 4096, winEnd := seqNumber }

/-- A number is received; the window moves if it is ahead. -/
def updateWithMpdu (seqNumber frag : ℕ) : Option BlockAckCache :=
  if QosUtilsIsOldPacket c.winStart seqNumber then some c
  else
    let moved := if c.IsInWindow seqNumber then some c else c.moveTo seqNumber
    moved.map fun c =>
      { c with bitmap := Function.update c.bitmap seqNumber (c.bitmap seqNumber ||| (1 <<< UInt16.ofNat frag)) }

/-- The end of a window that begins at the given sequence number, as `UpdateWithBlockAckReq` has it. -/
def newWinEnd (winStart : ℕ) : ℕ := uint16 (((winStart + c.winSize) % 4096 : ℕ) - 1)

/-- A request moves the window to its number. -/
def updateWithBlockAckReq (startingSeq : ℕ) : Option BlockAckCache :=
  if QosUtilsIsOldPacket c.winStart startingSeq then some c
  else if c.IsInWindow startingSeq then
    if startingSeq = c.winStart then some c
    else
      (c.resetPortionOfBitmap ((c.winEnd + 1) % 4096) (c.newWinEnd startingSeq)).map fun c' =>
        { c' with winStart := startingSeq, winEnd := c.newWinEnd startingSeq }
  else
    (c.resetPortionOfBitmap startingSeq (c.newWinEnd startingSeq)).map fun c' =>
      { c' with winStart := startingSeq, winEnd := c.newWinEnd startingSeq }

/-- `FillBlockAckBitmap`, of a compressed block ack. -/
def fillBlockAckBitmap (blockAckHeader : CtrlBAckResponseHeader) : Option CtrlBAckResponseHeader :=
  let start := blockAckHeader.startingSeq
  (Ring.walk 4096 start (uint32 (((start + c.winSize) % 4096 : ℕ) - 1))).map fun visited =>
    visited.foldl (fun h i => if c.bitmap i = 1 then h.setReceivedPacket i else h) blockAckHeader

/-- What happens to a cache. -/
inductive Event where
  /-- An unfragmented MPDU is received. -/
  | mpdu (seqNumber : ℕ)
  /-- A block ack request is received. -/
  | request (startingSeq : ℕ)
  /-- A block ack is filled, from the start of the window. -/
  | response (tid : ℕ)

/-- The block ack that is filled, with the fields that `SendBlockAckAfterBlockAckRequest` sets. -/
def blockAck (tid : ℕ) : CtrlBAckResponseHeader :=
  (CtrlBAckResponseHeader.new tid c.winStart).setType .compressedBlockAck

/-- The machine. -/
def machine : Machine BlockAckCache Event where
  enabled _ e :=
    match e with
    | .mpdu seqNumber => seqNumber < 4096
    | .request startingSeq => startingSeq < 4096
    | .response _ => True
  exec c e :=
    match e with
    | .mpdu seqNumber => c.updateWithMpdu seqNumber 0
    | .request startingSeq => c.updateWithBlockAckReq startingSeq
    | .response tid => (c.fillBlockAckBitmap (c.blockAck tid)).map fun _ => c

end BlockAckCache

end Ns3
