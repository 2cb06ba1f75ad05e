import Ns3.Lib.Block
import Ns3.Lib.Machine
import Ns3.Lib.Store

/-!
# Buffers

`Buffer` of `network/model/buffer.cc`: byte buffers that share the blocks they keep their bytes in. A
buffer is a range of its block with an area of zeros in it that takes no room there, so its offsets are
virtual: what lies behind the zero area is in the block by the size of the area nearer. Whether a buffer may
grow in place it sees from the number of buffers on the block and from the block's dirty range.

`Memory` is the memory that the methods work on: the buffers by their addresses, and the heap with the
blocks. An operation is `none` where the program has no defined behaviour: it uses a block that was
given back, or reads or writes outside of a block. Numbers are those of `uint32_t`.

* `Memory.bytes` — the bytes of a buffer, read as `CopyData` reads them.
* `Memory.Event`, `Memory.machine` — the calls that clients make, in any order, with what they write into
  the bytes they have just reserved.
-/

namespace Ns3

open Lib

/-- The sum of two numbers of `uint32_t`. -/
def add32 (a b : ℕ) : ℕ := (a + b) % 2 ^ 32

/-- The difference of two numbers of `uint32_t`. -/
def sub32 (a b : ℕ) : ℕ := if b ≤ a then a - b else a + 2 ^ 32 - b

theorem add32_of_lt {a b : ℕ} (h : a + b < 2 ^ 32) : add32 a b = a + b := Nat.mod_eq_of_lt h

theorem sub32_of_le {a b : ℕ} (h : b ≤ a) : sub32 a b = a - b := if_pos h

/-- `Buffer`. The address of an object is its key in `Memory.buffers`. -/
structure Buffer where
  /-- `m_data`: the address of the block. -/
  data : ℕ
  maxZeroAreaStart : ℕ
  zeroAreaStart : ℕ
  zeroAreaEnd : ℕ
  start : ℕ
  /-- `m_end`. -/
  stop : ℕ

namespace Buffer

/-- `struct Buffer::Data`: a block. -/
structure Data where
  count : ℕ
  dirtyStart : ℕ
  dirtyEnd : ℕ
  data : List UInt8

namespace Data

/-- How many bytes the block has. -/
def size (d : Data) : ℕ := d.data.length

/-- Reads from a block. -/
def read (d : Data) (p n : ℕ) : Option (List UInt8) :=
  if p + n ≤ d.size then some (slice d.data p n) else none

/-- Writes to a block. -/
def write (d : Data) (p : ℕ) (bytes : List UInt8) : Option Data :=
  if p + bytes.length ≤ d.size then some { d with data := overwrite d.data p bytes } else none

end Data

/-- `sizeof (struct Buffer::Data)`. -/
def sizeofData : ℕ := 20

/-- What `new` does, which the program does not choose: the address of the next block, and what lies
there. -/
structure Allocator where
  /-- The address of the next block. -/
  address : Store ℕ Data → ℕ
  /-- The next block is none of those in use. -/
  fresh : ∀ heap : Store ℕ Data, heap.lookup (address heap) = none
  /-- What lies in the next block. -/
  garbage : Store ℕ Data → ℕ → UInt8

/-- `Create`. Every caller sets the dirty range. -/
def Allocator.create (alloc : Allocator) (heap : Store ℕ Data) (size : ℕ) : Option Data :=
  let reqSize := if size = 0 then 1 else size
  -- otherwise the sum wraps around, and the block is smaller than its own header
  if reqSize - 1 + sizeofData < 2 ^ 32 then
    some { count := 1, dirtyStart := 0, dirtyEnd := 0, data := (List.range reqSize).map (alloc.garbage heap) }
  else none

/-- `m_count--`, and `Recycle` of a block that is left without buffers. -/
def release (heap : Store ℕ Data) (a : ℕ) : Option (Store ℕ Data) := do
  let d ← heap.lookup a
  let count := sub32 d.count 1
  if count = 0 then some (heap.erase a) else some (heap.insert a { d with count := count })

/-- `m_count++`. -/
def retain (heap : Store ℕ Data) (a : ℕ) : Option (Store ℕ Data) := do
  let d ← heap.lookup a
  some (heap.insert a { d with count := add32 d.count 1 })

/-! ### One buffer -/

variable (b : Buffer)

/-- The bytes, zero area included. -/
def getSize : ℕ := sub32 b.stop b.start

/-- The bytes but those of the zero area. -/
def getInternalSize : ℕ := sub32 (add32 (sub32 b.zeroAreaStart b.start) b.stop) b.zeroAreaEnd

/-- The end, as an offset of the block. -/
def getInternalEnd : ℕ := sub32 b.stop (sub32 b.zeroAreaEnd b.zeroAreaStart)

/-- What every method does before it returns: `m_maxZeroAreaStart` is brought up to date. -/
def track : Buffer := { b with maxZeroAreaStart := max b.maxZeroAreaStart b.zeroAreaStart }

/-- The test with which `AddAtStart` decides to stay in the block. -/
def StartsInPlace (d : Data) (start : ℕ) : Prop :=
  start ≤ b.start ∧ ¬ (1 < d.count ∧ d.dirtyStart < b.start)
deriving Decidable

/-- The test with which `AddAtEnd` decides to stay in the block. -/
def EndsInPlace (d : Data) (stop : ℕ) : Prop :=
  add32 b.getInternalEnd stop ≤ d.size ∧ ¬ (1 < d.count ∧ b.stop < d.dirtyEnd)
deriving Decidable

/-- All offsets moved by `delta`. -/
def shift (delta : ℕ) : Buffer :=
  { b with
    start := add32 b.start delta
    zeroAreaStart := add32 b.zeroAreaStart delta
    zeroAreaEnd := add32 b.zeroAreaEnd delta
    stop := add32 b.stop delta }

/-- Bytes are removed from the start, maybe with the zero area. -/
def removeAtStart (start : ℕ) : Buffer :=
  let newStart := add32 b.start start
  track <|
    if newStart ≤ b.zeroAreaStart then
      { b with start := newStart }
    else if newStart ≤ b.zeroAreaEnd then
      let delta := sub32 newStart b.zeroAreaStart
      { b with
        start := b.zeroAreaStart
        zeroAreaEnd := sub32 b.zeroAreaEnd delta
        stop := sub32 b.stop delta }
    else if newStart ≤ b.stop then
      let zeroSize := sub32 b.zeroAreaEnd b.zeroAreaStart
      let newStart := sub32 newStart zeroSize
      { b with
        start := newStart
        stop := sub32 b.stop zeroSize
        zeroAreaStart := newStart
        zeroAreaEnd := newStart }
    else
      let newEnd := sub32 b.stop (sub32 b.zeroAreaEnd b.zeroAreaStart)
      { b with start := newEnd, zeroAreaStart := newEnd, zeroAreaEnd := newEnd, stop := newEnd }

/-- Bytes are removed from the end, maybe with the zero area. -/
def removeAtEnd (stop : ℕ) : Buffer :=
  let newEnd := sub32 b.stop (min stop (sub32 b.stop b.start))
  track <|
    if b.zeroAreaEnd < newEnd then
      { b with stop := newEnd }
    else if b.zeroAreaStart < newEnd then
      { b with stop := newEnd, zeroAreaEnd := newEnd }
    else if b.start < newEnd then
      { b with stop := newEnd, zeroAreaEnd := newEnd, zeroAreaStart := newEnd }
    else
      { b with stop := b.start, zeroAreaEnd := b.start, zeroAreaStart := b.start }

/-- `CopyData`: what it copies of a buffer whose block is `d`. -/
def copyData (d : Data) (size : ℕ) : List UInt8 :=
  let dataStart := min (sub32 b.zeroAreaStart b.start) size
  let zeros := min (sub32 b.zeroAreaEnd b.zeroAreaStart) (size - dataStart)
  let dataEnd := min (sub32 b.stop b.zeroAreaEnd) (size - dataStart - zeros)
  slice d.data b.start dataStart ++ List.replicate zeros 0 ++ slice d.data b.zeroAreaStart dataEnd

/-- Where an iterator at the virtual offset `current` writes. -/
def offset (current : ℕ) : ℕ :=
  if current ≤ b.zeroAreaStart then current
  else sub32 current (sub32 b.zeroAreaEnd b.zeroAreaStart)

/-! ### The methods -/

/-- The buffers, the blocks, and `g_recommendedStart`. -/
structure Memory where
  /-- The buffers by their addresses. -/
  buffers : Store ℕ Buffer
  /-- The blocks by their addresses. -/
  heap : Store ℕ Data
  /-- `g_recommendedStart`. -/
  recommendedStart : ℕ

namespace Memory

/-- No buffer has been made. -/
def empty : Memory := ⟨∅, ∅, 0⟩

variable (m : Memory)

/-- A buffer and its block. -/
def view (this : ℕ) : Option (Buffer × Data) := do
  let b ← m.buffers.lookup this
  let d ← m.heap.lookup b.data
  some (b, d)

/-- The bytes of a buffer. -/
def bytes (this : ℕ) : Option (List UInt8) :=
  (m.view this).map fun (b, d) => b.copyData d b.getSize

variable (alloc : Allocator)

/-- `Initialize`. -/
def initializeBuffer (m : Memory) (this zeroSize : ℕ) : Option Memory := do
  let d ← alloc.create m.heap 0
  let start := min d.size m.recommendedStart
  let zeroAreaEnd := add32 start zeroSize
  some { m with
    buffers := m.buffers.insert this
      { data := alloc.address m.heap, maxZeroAreaStart := start, zeroAreaStart := start
        zeroAreaEnd := zeroAreaEnd, start := start, stop := zeroAreaEnd }
    heap := m.heap.insert (alloc.address m.heap) { d with dirtyStart := start, dirtyEnd := zeroAreaEnd } }

/-- `Buffer (Buffer const &o)`. -/
def copy (this o : ℕ) : Option Memory := do
  let b ← m.buffers.lookup o
  let heap ← retain m.heap b.data
  some { m with
    buffers := m.buffers.insert this { b with maxZeroAreaStart := b.zeroAreaStart }
    heap := heap }

/-- `operator =`. -/
def assign (this o : ℕ) : Option Memory := do
  let b ← m.buffers.lookup this
  let ob ← m.buffers.lookup o
  let heap ←
    if b.data ≠ ob.data then do
      let heap ← release m.heap b.data
      retain heap ob.data
    else some m.heap
  some {
    buffers := m.buffers.insert this ob
    heap := heap
    recommendedStart := max m.recommendedStart b.maxZeroAreaStart }

/-- `~Buffer`. -/
def destroy (this : ℕ) : Option Memory := do
  let b ← m.buffers.lookup this
  let heap ← release m.heap b.data
  some {
    buffers := m.buffers.erase this
    heap := heap
    recommendedStart := max m.recommendedStart b.maxZeroAreaStart }

/-- `AddAtStart`, with what it returns. -/
def addAtStart (m : Memory) (this start : ℕ) : Option (Bool × Memory) := do
  let (b, d) ← m.view this
  if b.StartsInPlace d start then
    let newStart := sub32 b.start start
    let dirty := decide (d.dirtyStart < newStart)
    some (dirty, { m with
      buffers := m.buffers.insert this (track { b with start := newStart })
      heap := m.heap.insert b.data { d with dirtyStart := newStart } })
  else
    let newData ← alloc.create m.heap (add32 b.getInternalSize start)
    let bytes ← d.read b.start b.getInternalSize
    let newData ← newData.write start bytes
    let heap ← release m.heap b.data
    let moved := b.shift (sub32 start b.start)
    let moved := { moved with data := alloc.address m.heap, start := sub32 moved.start start }
    some (true, { m with
      buffers := m.buffers.insert this (track moved)
      heap := heap.insert (alloc.address m.heap)
        { newData with dirtyStart := moved.start, dirtyEnd := moved.stop } })

/-- `AddAtEnd`, with what it returns. -/
def addAtEnd (m : Memory) (this stop : ℕ) : Option (Bool × Memory) := do
  let (b, d) ← m.view this
  if b.EndsInPlace d stop then
    let newEnd := add32 b.stop stop
    let d := { d with dirtyEnd := newEnd }
    let dirty := decide (newEnd < d.dirtyEnd)
    some (dirty, { m with
      buffers := m.buffers.insert this (track { b with stop := newEnd })
      heap := m.heap.insert b.data d })
  else
    let newData ← alloc.create m.heap (add32 b.getInternalSize stop)
    let bytes ← d.read b.start b.getInternalSize
    let newData ← newData.write 0 bytes
    let heap ← release m.heap b.data
    let moved := b.shift (sub32 0 b.start)
    let moved := { moved with data := alloc.address m.heap, stop := add32 moved.stop stop }
    some (true, { m with
      buffers := m.buffers.insert this (track moved)
      heap := heap.insert (alloc.address m.heap)
        { newData with dirtyStart := moved.start, dirtyEnd := moved.stop } })

/-- Changes a buffer, and not its block. -/
def modify (this : ℕ) (f : Buffer → Buffer) : Option Memory := do
  let b ← m.buffers.lookup this
  some { m with buffers := m.buffers.insert this (f b) }

/-- Bytes of a buffer are removed from its start. -/
def removeAtStart (m : Memory) (this start : ℕ) : Option Memory := m.modify this (·.removeAtStart start)

/-- Bytes of a buffer are removed from its end. -/
def removeAtEnd (m : Memory) (this stop : ℕ) : Option Memory := m.modify this (·.removeAtEnd stop)

/-- `Iterator::Write`, by an iterator at the virtual offset that `current` gives. -/
def write (m : Memory) (this : ℕ) (current : Buffer → ℕ) (bytes : List UInt8) : Option Memory := do
  let (b, d) ← m.view this
  let d ← d.write (b.offset (current b)) bytes
  some { m with heap := m.heap.insert b.data d }

/-- `Begin ().Write (bytes, size)`. -/
def writeAtStart (this : ℕ) (bytes : List UInt8) : Option Memory := m.write this Buffer.start bytes

/-- `i = End (); i.Prev (size); i.Write (bytes, size)`. -/
def writeAtEnd (this : ℕ) (bytes : List UInt8) : Option Memory :=
  m.write this (fun b => sub32 b.stop bytes.length) bytes

/-- Reads from the block of a buffer. -/
def readData (this p n : ℕ) : Option (List UInt8) := do
  let (_, d) ← m.view this
  d.read p n

/-- `CreateFragment`, which makes the buffer `tmp`. -/
def createFragment (tmp this start length : ℕ) : Option Memory := do
  let m ← m.copy tmp this
  let m ← m.removeAtStart tmp start
  let b ← m.buffers.lookup this
  m.removeAtEnd tmp (sub32 b.getSize (add32 start length))

/-- `CreateFullCopy`, which makes the buffer `tmp`. -/
def createFullCopy (m : Memory) (tmp this : ℕ) : Option Memory := do
  let b ← m.buffers.lookup this
  if sub32 b.zeroAreaEnd b.zeroAreaStart ≠ 0 then
    let m ← m.initializeBuffer alloc tmp 0
    let (_, m) ← m.addAtStart alloc tmp (sub32 b.zeroAreaEnd b.zeroAreaStart)
    let m ← m.writeAtStart tmp (List.replicate (sub32 b.zeroAreaEnd b.zeroAreaStart) 0)
    let dataStart := sub32 b.zeroAreaStart b.start
    let (_, m) ← m.addAtStart alloc tmp dataStart
    let bytes ← m.readData this b.start dataStart
    let m ← m.writeAtStart tmp bytes
    let dataEnd := sub32 b.stop b.zeroAreaEnd
    let (_, m) ← m.addAtEnd alloc tmp dataEnd
    let bytes ← m.readData this b.zeroAreaStart dataEnd
    m.writeAtEnd tmp bytes
  else m.copy tmp this

/-! ### Clients -/

/-- What clients do with buffers: what is made is made at an address where there is no buffer. After
`addAtStart` and `addAtEnd` the reserved bytes are `bytes`: a client that leaves some of them as they are
leaves what it found there. -/
inductive Event where
  /-- `Buffer ()`, `Buffer (dataSize)`. -/
  | create (this dataSize : ℕ)
  /-- `Buffer (o)`. -/
  | copy (this o : ℕ)
  /-- `operator =`. -/
  | assign (this o : ℕ)
  /-- `~Buffer`. -/
  | destroy (this : ℕ)
  | createFragment (tmp this start length : ℕ)
  | createFullCopy (tmp this : ℕ)
  /-- `AddAtStart`, and the bytes are written. -/
  | addAtStart (this : ℕ) (bytes : List UInt8)
  /-- `AddAtEnd`, and the bytes are written. -/
  | addAtEnd (this : ℕ) (bytes : List UInt8)
  | removeAtStart (this start : ℕ)
  | removeAtEnd (this stop : ℕ)

/-- The buffer that an event makes, changes or destroys. -/
def Event.target : Event → ℕ
  | .create this _ | .copy this _ | .assign this _ | .destroy this | .createFragment this _ _ _
  | .createFullCopy this _ | .addAtStart this _ | .addAtEnd this _ | .removeAtStart this _
  | .removeAtEnd this _ => this

/-- The clients' side: they name buffers that there are, make new ones at new addresses, and pass numbers of
`uint32_t`. -/
def Enabled : Event → Prop
  | .create this dataSize => m.buffers.lookup this = none ∧ dataSize < 2 ^ 32
  | .copy this o => m.buffers.lookup this = none ∧ (m.buffers.lookup o).isSome
  | .assign this o => (m.buffers.lookup this).isSome ∧ (m.buffers.lookup o).isSome
  | .destroy this => (m.buffers.lookup this).isSome
  | .createFragment tmp this start length =>
    m.buffers.lookup tmp = none ∧ (m.buffers.lookup this).isSome ∧ start < 2 ^ 32 ∧ length < 2 ^ 32
  | .createFullCopy tmp this => m.buffers.lookup tmp = none ∧ (m.buffers.lookup this).isSome
  | .addAtStart this bytes => (m.buffers.lookup this).isSome ∧ bytes.length < 2 ^ 32
  | .addAtEnd this bytes => (m.buffers.lookup this).isSome ∧ bytes.length < 2 ^ 32
  | .removeAtStart this start => (m.buffers.lookup this).isSome ∧ start < 2 ^ 32
  | .removeAtEnd this stop => (m.buffers.lookup this).isSome ∧ stop < 2 ^ 32

/-- What an event does. -/
def exec (m : Memory) : Event → Option Memory
  | .create this dataSize => m.initializeBuffer alloc this dataSize
  | .copy this o => m.copy this o
  | .assign this o => m.assign this o
  | .destroy this => m.destroy this
  | .createFragment tmp this start length => m.createFragment tmp this start length
  | .createFullCopy tmp this => m.createFullCopy alloc tmp this
  | .addAtStart this bytes => do
    let (_, m) ← m.addAtStart alloc this bytes.length
    m.writeAtStart this bytes
  | .addAtEnd this bytes => do
    let (_, m) ← m.addAtEnd alloc this bytes.length
    m.writeAtEnd this bytes
  | .removeAtStart this start => m.removeAtStart this start
  | .removeAtEnd this stop => m.removeAtEnd this stop

/-- The program with its clients, each event with what `new` does in it. -/
def machine : Machine Memory (Event × Allocator) where
  enabled m e := m.Enabled e.1
  exec m e := m.exec e.2 e.1

end Memory

end Buffer

end Ns3
