import Ns3.Core.TypeId
import Ns3.Network.BufferSharing
import Ns3.Network.PacketMetadata

/-!
# Packets as octets

`Packet::Serialize` and `Packet::Deserialize` of `network/model/packet.cc`, with those of `NixVector`,
`PacketMetadata` and `Buffer`. A packet is written into a block as three parts, each behind a number of 32 bits that
gives its size and behind each such octets that the next begins at a multiple of four. Numbers are in the order
of the machine, which is the same on both sides.

A `Pen` is the pointer that is written through. An operation is `none` where an assertion fails or where the
program leaves the block, and the `Bool` is what it returns: `false` for 0.
-/

namespace Ns3

open Lib

/-- A number of `uint32_t`, rounded up to a multiple of four: `(n + 3) & (~3)`. -/
def pad4 (n : ℕ) : ℕ := add32 n 3 / 4 * 4

/-! ### Nix vectors -/

/-- A route as a string of bits. -/
structure NixVector where
  nixVector : List UInt32
  used : UInt32
  currentVectorBitSize : UInt32
  totalBitSize : UInt32
  deriving DecidableEq

namespace NixVector

/-- The octets of the nix vector. -/
def getSerializedSize (nix : NixVector) : ℕ := add32 12 (4 * nix.nixVector.length)

/-- The numbers that `Serialize` writes. -/
def words (nix : NixVector) : List UInt32 :=
  nix.used :: nix.currentVectorBitSize :: nix.totalBitSize :: nix.nixVector

/-- Writes numbers as long as there is room for them, when `size` octets are written. -/
def putWords (order : ByteOrder) (maxSize : ℕ) : ℕ → List UInt32 → Pen → Option (Bool × Pen)
  | _, [], pen => some (true, pen)
  | size, word :: words, pen =>
    if add32 size 4 ≤ maxSize then do
      let pen ← pen.put (order.encode 4 word.toNat)
      putWords order maxSize (add32 size 4) words pen
    else some (false, pen)

variable (order : ByteOrder)

/-- Its numbers are written one behind the other. -/
def serialize (nix : NixVector) (pen : Pen) (maxSize : ℕ) : Option (Bool × Pen) :=
  putWords order maxSize 0 nix.words pen

/-- Reads one number; `sizeCheck` octets are left. -/
def readWord (sizeCheck : ℕ) (l : List UInt8) : Option (UInt32 × ℕ × List UInt8) :=
  if 4 ≤ sizeCheck then do
    let (word, l) ← order.read 4 l
    some (UInt32.ofNat word, sub32 sizeCheck 4, l)
  else none

/-- Reads numbers until no octets are left. -/
def readWords (order : ByteOrder) : ℕ → ℕ → List UInt8 → Option (List UInt32)
  | 0, _, _ => none
  | steps + 1, sizeCheck, l =>
    if sizeCheck = 0 then some []
    else do
      let (word, sizeCheck, l) ← readWord order sizeCheck l
      let words ← readWords order steps sizeCheck l
      some (word :: words)

/-- `Deserialize`, of what lies at the pointer. It returns 1, or does not return. -/
def deserialize (l : List UInt8) (size : ℕ) : Option NixVector := do
  let (used, sizeCheck, l) ← readWord order (sub32 size 4) l
  let (currentVectorBitSize, sizeCheck, l) ← readWord order sizeCheck l
  let (totalBitSize, sizeCheck, l) ← readWord order sizeCheck l
  let nixVector ← readWords order (sizeCheck + 1) sizeCheck l
  some ⟨nixVector, used, currentVectorBitSize, totalBitSize⟩

end NixVector

/-! ### Metadata -/

namespace PacketMetadata

/-- The type of an item: `(typeUid & 0xfffffffe) >> 1`. -/
def SmallItem.uid (item : SmallItem) : ℕ := item.typeUid / 2

variable (types : IidManager)

/-- The name that stands for the type of an item; payload has none. -/
def nameOf (uid : ℕ) : Option (List UInt8) :=
  if uid = 0 then some [] else TypeId.getName types uid

/-- What an item adds to `GetSerializedSize`. -/
def rawSize (item : SmallItem × ExtraItem) : Option ℕ := do
  let name ← nameOf types item.1.uid
  some (4 + name.length + (1 + 4 + 2 + 4 + 4 + 8))

/-- The octets of the items, if the metadata is enabled. -/
def getSerializedSize (enable : Bool) (m : PacketMetadata) : Option ℕ :=
  if enable then do
    let items ← m.items
    let sizes ← items.mapM (rawSize types)
    some (add32 8 sizes.sum)
  else some 8

/-- `AddToRaw`, `AddToRawU8` and the like, one after the other: they stop where `maxSize` octets are not enough. -/
def addToRaw (start maxSize : ℕ) : List (List UInt8) → Pen → Option (Bool × Pen)
  | [], pen => some (true, pen)
  | data :: rest, pen =>
    if maxSize < (pen.before.length + data.length - start) % 2 ^ 32 then some (false, pen)
    else do
      let pen ← pen.put data
      addToRaw start maxSize rest pen

variable (order : ByteOrder)

/-- What `Serialize` writes of an item. -/
def rawItem (item : SmallItem × ExtraItem) : Option (List (List UInt8)) := do
  let name ← nameOf types item.1.uid
  some [order.encode 4 name.length, name, order.encode 1 (item.1.typeUid % 2), order.encode 4 item.1.size,
    order.encode 2 item.1.chunkUid, order.encode 4 item.2.fragmentStart, order.encode 4 item.2.fragmentEnd,
    order.encode 8 item.2.packetUid.toNat]

/-- The identifier and the items are written. -/
def serialize (m : PacketMetadata) (pen : Pen) (maxSize : ℕ) :
    Option (Bool × Pen) := do
  let items ← m.items
  let pieces ← items.mapM (rawItem types order)
  let (ok, pen') ← addToRaw pen.before.length maxSize (order.encode 8 m.packetUid.toNat :: pieces.flatten) pen
  if ok then
    if pen'.before.length - pen.before.length = maxSize then some (true, pen') else none
  else some (false, pen')

/-- The type that a name stands for: none stands for payload. -/
def uidOf (uidStringSize : ℕ) (uidString : List UInt8) : Option ℕ :=
  if uidStringSize = 0 then some 0 else TypeId.lookupByName types uidString

/-- The item that lies at the pointer, when `desSize` octets are left. Its links are not set. -/
def readRawItem (desSize : ℕ) (l : List UInt8) :
    Option ((SmallItem × ExtraItem) × ℕ × List UInt8) := do
  let (uidStringSize, l) ← order.read 4 l
  let (uidString, l) ← readOctets uidStringSize l
  let uid ← uidOf types uidStringSize uidString
  let (isBig, l) ← order.read 1 l
  let (size, l) ← order.read 4 l
  let (chunkUid, l) ← order.read 2 l
  let (fragmentStart, l) ← order.read 4 l
  let (fragmentEnd, l) ← order.read 4 l
  let (packetUid, l) ← order.read 8 l
  some ((⟨0, 0, uid * 2 ||| isBig, size, chunkUid⟩, ⟨fragmentStart, fragmentEnd, UInt64.ofNat packetUid⟩),
    sub32 desSize (4 + uidStringSize + (1 + 4 + 2 + 4 + 4 + 8)), l)

/-- The loop of `Deserialize`. -/
def readRawItems (types : IidManager) (order : ByteOrder) (alloc : Allocator) :
    ℕ → ℕ → List UInt8 → PacketMetadata → Option PacketMetadata
  | 0, _, _, _ => none
  | steps + 1, desSize, l, m =>
    if desSize = 0 then some m
    else do
      let ((item, extraItem), desSize, l) ← readRawItem types order desSize l
      let (tmp, m) ← m.addBig alloc 0xffff m.tail item extraItem
      let m ← m.updateTail tmp
      readRawItems types order alloc steps desSize l m

/-- `Deserialize`, of what lies at the pointer. It returns 1, or does not return: an item takes more than one
octet, and no reading goes beyond the first `size`. -/
def deserialize (alloc : Allocator) (m : PacketMetadata) (l : List UInt8)
    (size : ℕ) : Option PacketMetadata := do
  let (packetUid, l) ← order.read 8 (l.take size)
  readRawItems types order alloc (size + 1) (sub32 (sub32 size 4) 8) l { m with packetUid := UInt64.ofNat packetUid }

end PacketMetadata

/-! ### Buffers -/

namespace Buffer

/-- The octets of the buffer, in two padded parts. -/
def getSerializedSize (b : Buffer) : ℕ :=
  let dataStart := pad4 (sub32 b.zeroAreaStart b.start)
  let dataEnd := pad4 (sub32 b.stop b.zeroAreaEnd)
  add32 (add32 (add32 8 dataStart) 4) dataEnd

variable (order : ByteOrder)

/-- A number and then octets, of which `size` are written before: the pointer ends behind the padding. -/
def putData (maxSize size : ℕ) (bytes : Option (List UInt8)) (length : ℕ) (pen : Pen) :
    Option (Bool × ℕ × Pen) :=
  if add32 size 4 ≤ maxSize then do
    let pen ← pen.put (order.encode 4 length)
    let size := add32 size 4
    if add32 size (pad4 length) ≤ maxSize then do
      let bytes ← bytes
      let written ← pen.put bytes
      some (true, add32 size (pad4 length), written.seek (pen.before.length + pad4 length))
    else some (false, size, pen)
  else some (false, size, pen)

/-- `Serialize`, of a buffer whose block is `d`. -/
def serialize (b : Buffer) (d : Data) (pen : Pen) (maxSize : ℕ) : Option (Bool × Pen) :=
  if 4 ≤ maxSize then do
    let pen ← pen.put (order.encode 4 (sub32 b.zeroAreaEnd b.zeroAreaStart))
    let dataStartLength := sub32 b.zeroAreaStart b.start
    let (ok, size, pen) ← putData order maxSize 4 (d.read b.start dataStartLength) dataStartLength pen
    if ok then do
      let dataEndLength := sub32 b.stop b.zeroAreaEnd
      let (ok, _, pen) ← putData order maxSize size (d.read b.zeroAreaStart dataEndLength) dataEndLength pen
      some (ok, pen)
    else some (false, pen)
  else some (false, pen)

/-- `Deserialize`, of what lies at the pointer, into a buffer that is not initialized. -/
def Memory.deserialize (alloc : Allocator) (m : Memory) (this : ℕ) (l : List UInt8) (size : ℕ) :
    Option (Bool × Memory) := do
  let sizeCheck := sub32 size 4
  let (zeroDataLength, l) ← if 4 ≤ sizeCheck then order.read 4 l else none
  let sizeCheck := sub32 sizeCheck 4
  let m ← m.initializeBuffer alloc this zeroDataLength
  let (dataStartLength, l) ← if 4 ≤ sizeCheck then order.read 4 l else none
  let sizeCheck := sub32 sizeCheck 4
  let (_, m) ← m.addAtStart alloc this dataStartLength
  let (bytes, _) ← if dataStartLength ≤ sizeCheck then readOctets dataStartLength l else none
  let m ← m.writeAtStart this bytes
  let l := l.drop (pad4 dataStartLength)
  let sizeCheck := sub32 sizeCheck (pad4 dataStartLength)
  let (dataEndLength, l) ← if 4 ≤ sizeCheck then order.read 4 l else none
  let sizeCheck := sub32 sizeCheck 4
  let (_, m) ← m.addAtEnd alloc this dataEndLength
  let (bytes, _) ← if dataEndLength ≤ sizeCheck then readOctets dataEndLength l else none
  let m ← m.writeAtEnd this bytes
  if sub32 sizeCheck (pad4 dataEndLength) = 0 then some (true, m) else none

end Buffer

/-! ### Packets -/

/-- `Packet`: its buffer with the block, the metadata, and the nix vector. -/
structure Packet where
  buffer : Buffer
  data : Buffer.Data
  /-- The buffer lies in its block. -/
  inBounds : buffer.InBounds data
  metadata : PacketMetadata
  nixVector : Option NixVector

namespace Packet

/-- The size of the part for the nix vector, without the number before it: the padding counts. -/
def nixSize (p : Packet) : ℕ := (p.nixVector.map fun nix => pad4 nix.getSerializedSize).getD 0

/-- The octets of all parts, padded, each with its size. -/
def getSerializedSize (types : IidManager) (enable : Bool) (p : Packet) : Option ℕ := do
  let size := add32 p.nixSize 4
  let metaSize ← p.metadata.getSerializedSize types enable
  let size := add32 (add32 size (pad4 metaSize)) 4
  some (add32 (add32 size (pad4 p.buffer.getSerializedSize)) 4)

variable (order : ByteOrder)

/-- A part of the packet, of which `size` octets are counted before: its size, which includes the octets of the
number, and then its octets. The pointer ends behind the padding. -/
def putPart (maxSize size partSize : ℕ) (serialize : Pen → ℕ → Option (Bool × Pen)) (pen : Pen) :
    Option (Bool × ℕ × Pen) :=
  if add32 size partSize ≤ maxSize then do
    let pen ← pen.put (order.encode 4 (add32 partSize 4))
    let (ok, written) ← serialize pen partSize
    some (ok, add32 size partSize, written.seek (pen.before.length + pad4 partSize))
  else some (false, size, pen)

/-- The part for the nix vector. Without one the four octets of the number count, and otherwise they do not. -/
def putNixVector (maxSize : ℕ) (p : Packet) (pen : Pen) : Option (Bool × ℕ × Pen) :=
  match p.nixVector with
  | some nix => putPart order maxSize 0 nix.getSerializedSize (nix.serialize order) pen
  | none =>
    if 4 ≤ maxSize then do
      let pen ← pen.put (order.encode 4 4)
      some (true, 4, pen)
    else some (false, 0, pen)

/-- The parts are written one behind the other. -/
def serialize (types : IidManager) (enable : Bool) (order : ByteOrder) (p : Packet) (pen : Pen) (maxSize : ℕ) :
    Option (Bool × Pen) := do
  let (ok, size, pen) ← p.putNixVector order maxSize pen
  if ok then do
    let metaSize ← p.metadata.getSerializedSize types enable
    let (ok, size, pen) ← putPart order maxSize size metaSize (p.metadata.serialize types order) pen
    if ok then do
      let bufSize := p.buffer.getSerializedSize
      let (ok, _, pen) ← putPart order maxSize size bufSize (p.buffer.serialize order p.data) pen
      some (ok, pen)
    else some (false, pen)
  else some (false, pen)

/-- A packet that was read: its buffer is one of a memory. -/
structure Received where
  memory : Buffer.Memory
  metadata : PacketMetadata
  nixVector : Option NixVector

/-- The nix vector of a part of this size, and what lies behind it. -/
def readNixVector (nixSize : ℕ) (l : List UInt8) : Option (Option NixVector × List UInt8) :=
  if 4 < nixSize then do
    let nix ← NixVector.deserialize order l nixSize
    some (some nix, l.drop (pad4 (sub32 nixSize 4)))
  else some (none, l)

/-- `Packet (buffer, size, magic)`, whose buffer is made at an address: `Deserialize`, with what it returns. -/
def deserialize (types : IidManager) (order : ByteOrder) (alloc : PacketMetadata.Allocator)
    (balloc : Buffer.Allocator) (m : Buffer.Memory) (this : ℕ) (l : List UInt8) (size : ℕ) :
    Option (Bool × Received) := do
  let (nixSize, l) ← order.read 4 l
  if nixSize ≤ size then do
    let size := sub32 size nixSize
    let (nixVector, l) ← readNixVector order nixSize l
    let (metaSize, l) ← order.read 4 l
    if metaSize ≤ size then do
      let size := sub32 size metaSize
      let metadata ← (PacketMetadata.new alloc 0).deserialize types order alloc l metaSize
      let l := l.drop (pad4 (sub32 metaSize 4))
      let (bufSize, l) ← order.read 4 l
      if bufSize ≤ size then do
        let size := sub32 size bufSize
        let (ok, m) ← m.deserialize order balloc this l bufSize
        some (ok && decide (size = 0), ⟨m, metadata, nixVector⟩)
      else none
    else none
  else none

end Packet

end Ns3
