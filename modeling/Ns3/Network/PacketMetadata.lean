import Ns3.Lib.Block
import Ns3.Lib.Octets
import Mathlib.Algebra.GroupWithZero.Nat

/-!
# Packet metadata

`PacketMetadata` of `network/model/packet-metadata.cc`: the list of the headers, trailers and payloads of a packet,
or of what is left of them. The items lie in a block of octets, each with the offsets of the next and of the
previous one and with numbers of variable size; `0xffff` is no offset.

Here are the items and their octets, and what adds an item behind the last. An operation is `none` where an
assertion fails or where the program reads or writes outside of the block.

* `readItems` — reading the item at an offset; `walk` and `items`, the list from the head to the tail.
* `addBig`, `updateTail` — an item is written behind the used octets and linked to the tail.
-/

namespace Ns3

open Lib

/-- `struct PacketMetadata::Data`: a block. -/
structure PacketMetadata.Data where
  count : ℕ
  dirtyEnd : ℕ
  data : List UInt8

/-- `PacketMetadata`, with its block. -/
structure PacketMetadata where
  data : PacketMetadata.Data
  head : ℕ
  tail : ℕ
  used : ℕ
  packetUid : UInt64

namespace PacketMetadata

namespace Data

/-- `m_size`, a number of 16 bits. -/
def size (d : Data) : ℕ := d.data.length % 2 ^ 16

/-- Writes to a block. -/
def write (d : Data) (p : ℕ) (bytes : List UInt8) : Option Data :=
  if p + bytes.length ≤ d.data.length then some { d with data := overwrite d.data p bytes } else none

end Data

/-- An item of the list, as it is stored. -/
structure SmallItem where
  /-- The offset of the next item. -/
  next : ℕ
  /-- The offset of the previous item. -/
  prev : ℕ
  /-- Twice the number of the type, and 1 more if there is an `ExtraItem`. The type 0 is payload. -/
  typeUid : ℕ
  /-- The size of the header, trailer or payload. -/
  size : ℕ
  /-- The number of the header, trailer or payload. -/
  chunkUid : ℕ
  deriving DecidableEq

/-- What an item has besides, if it is of a part of a chunk. -/
structure ExtraItem where
  fragmentStart : ℕ
  fragmentEnd : ℕ
  /-- The packet that the item was first added to. -/
  packetUid : UInt64
  deriving DecidableEq

/-- What `PacketMetadata::Create` does: it hands out a block of at least the given size, new or from the free list,
and what lies in it is not known. -/
structure Allocator where
  /-- The block that an object is given. -/
  create : PacketMetadata → ℕ → Data
  /-- It is the only one on the block. -/
  count_create : ∀ m n, (create m n).count = 1
  le_create : ∀ m n, n ≤ (create m n).data.length
  /-- Blocks have at most `2 ^ 16 - 1` octets, unless more is asked for. -/
  create_lt : ∀ m n, n < 2 ^ 16 → (create m n).data.length < 2 ^ 16

/-! ### Numbers -/

variable (value : ℕ)

/-- The octets of a number, seven bits each. -/
def getUleb128Size : ℕ :=
  if value < 0x80 then 1
  else if value < 0x4000 then 2
  else if value < 0x200000 then 3
  else if value < 0x10000000 then 4
  else 5

/-- What `AppendValue` and `AppendValueExtra` write. -/
def appendValue : List UInt8 := leb128 (getUleb128Size value - 1) value

/-- A number of seven bits an octet, at most five. -/
def readUleb128 (l : List UInt8) : Option (ℕ × List UInt8) :=
  (readLeb128 4 l).map fun (n, l) => (n % 2 ^ 32, l)

/-- What `Append16` writes. -/
def append16 : List UInt8 := littleEndian 2 value

/-- What `Append32` writes. -/
def append32 : List UInt8 := littleEndian 4 value

/-- An `int` of these 32 bits, as a number of `uint64_t`. -/
def signExtend (n : ℕ) : UInt64 := UInt64.ofNat (if n < 2 ^ 31 then n else n + 2 ^ 64 - 2 ^ 32)

/-! ### Reading -/

variable (m : PacketMetadata)

/-- The item at the offset, with what it has besides. -/
def readItems (current : ℕ) : Option (SmallItem × ExtraItem) :=
  if current ≤ m.data.size then do
    let (next, l) ← readOctets 2 (m.data.data.drop current)
    let (prev, l) ← readOctets 2 l
    let (typeUid, l) ← readUleb128 l
    let (size, l) ← readUleb128 l
    let (chunkUid, l) ← readOctets 2 l
    let item : SmallItem := ⟨ofLittleEndian next, ofLittleEndian prev, typeUid, size, ofLittleEndian chunkUid⟩
    if typeUid % 2 = 1 then
      let (fragmentStart, l) ← readUleb128 l
      let (fragmentEnd, l) ← readUleb128 l
      let (packetUid, l) ← readOctets 4 l
      if m.data.data.length - l.length ≤ m.data.size then
        some (item, ⟨fragmentStart, fragmentEnd, signExtend (ofLittleEndian packetUid)⟩)
      else none
    else if m.data.data.length - l.length ≤ m.data.size then some (item, ⟨0, size, m.packetUid⟩)
    else none
  else none

/-- The loops from the head to the tail: what they read, from an offset on. -/
def walk (m : PacketMetadata) : ℕ → ℕ → Option (List (SmallItem × ExtraItem))
  | 0, _ => none
  | steps + 1, current =>
    if current = 0xffff then some []
    else do
      let (item, extraItem) ← m.readItems current
      if current = m.tail then some [(item, extraItem)]
      else if current ≠ item.next then do
        let items ← m.walk steps item.next
        some ((item, extraItem) :: items)
      else none

theorem walk_end {steps : ℕ} (hsteps : 0 < steps) : m.walk steps 0xffff = some [] := by
  cases steps with
  | zero => omega
  | succ steps => rw [walk, if_pos rfl]

/-- The items. An offset has 16 bits, and a loop that takes more steps goes round. -/
def items : Option (List (SmallItem × ExtraItem)) := m.walk (2 ^ 16) m.head

/-! ### Adding items -/

variable (alloc : Allocator)

/-- `PacketMetadata (uid, 0)`. -/
def new (uid : UInt64) : PacketMetadata :=
  let m : PacketMetadata := ⟨⟨1, 0, []⟩, 0xffff, 0xffff, 0, uid⟩
  let d := alloc.create m 10
  { m with data := { d with data := overwrite d.data 0 (List.replicate 4 0xff) } }

/-- The used bytes move to a block with room for more. -/
def reserveCopy (m : PacketMetadata) (size : ℕ) : Option PacketMetadata := do
  let newData := alloc.create m (m.used + size)
  if m.used ≤ m.data.data.length then
    let newData ← newData.write 0 (m.data.data.take m.used)
    let newData := { newData with dirtyEnd := m.used }
    if m.head ≠ 0xffff then
      let newData ← newData.write m.tail (append16 0xffff)
      let newData ← newData.write (m.head + 2) (append16 0xffff)
      some { m with data := newData }
    else some { m with data := newData }
  else none

/-- What `AddSmall` and `AddBig` do before they write `n` octets: a list stays in its block if there is room and no
other list can have used it. -/
def makeRoom (m : PacketMetadata) (n : ℕ) : Option PacketMetadata :=
  if m.data.size < m.used + n ∨ (m.head ≠ 0xffff ∧ m.data.count ≠ 1 ∧ m.used ≠ m.data.dirtyEnd) then
    m.reserveCopy alloc n
  else some m

/-- What `AddBig` writes behind the links. -/
def bigBody (item : SmallItem) (extraItem : ExtraItem) : List UInt8 :=
  let typeUid := if item.typeUid % 2 = 1 then item.typeUid else item.typeUid + 1
  appendValue typeUid ++ (appendValue item.size ++ (append16 item.chunkUid ++
    (appendValue extraItem.fragmentStart ++ (appendValue extraItem.fragmentEnd ++
      append32 extraItem.packetUid.toNat))))

/-- What `AddBig` writes. -/
def bigItem (next prev : ℕ) (item : SmallItem) (extraItem : ExtraItem) : List UInt8 :=
  append16 next ++ (append16 prev ++ bigBody item extraItem)

/-- `AddBig`, with the number of octets written. -/
def addBig (m : PacketMetadata) (next prev : ℕ) (item : SmallItem) (extraItem : ExtraItem) :
    Option (ℕ × PacketMetadata) := do
  let bytes := bigItem next prev item extraItem
  let n := bytes.length
  if m.used ≠ prev ∧ m.used ≠ next then
    let m ← m.makeRoom alloc n
    let data ← m.data.write m.used bytes
    some (n, { m with data := data })
  else none

/-- The item that was written is the last now. -/
def updateTail (written : ℕ) : Option PacketMetadata := do
  let m ←
    if m.head = 0xffff then
      if m.tail = 0xffff then some { m with head := m.used, tail := m.used } else none
    else if m.tail ≠ 0xffff then do
      let data ← m.data.write m.tail (append16 m.used)
      some { m with data := data, tail := m.used }
    else none
  let used := (m.used + written) % 2 ^ 16
  some { m with used := used, data := { m.data with dirtyEnd := used } }

end PacketMetadata

end Ns3
