import Ns3.Lib.Reader
import Ns3.Network.Address

/-!
# Buffer iterators

What the headers read from a buffer and write to it (`Buffer::Iterator` in
`network/model/buffer.cc`): a `Read` is a `Reader`, a `Write` the octets it writes. An iterator does
not stop at the end of its buffer.
-/

namespace Ns3

open Lib

namespace Buffer.Iterator

/-- One octet. -/
def readU8 : Reader UInt8 := Reader.octet

/-- `Read (buffer, size)`. -/
def read (size : ℕ) : Reader (List UInt8) := Reader.octets size

/-- `ReadU16`: the lower octet first. -/
def readU16 : Reader UInt16 := do
  let byte0 ← readU8
  let byte1 ← readU8
  pure (UInt16.ofNat (byte1.toNat * 256 + byte0.toNat))

/-- Two octets, the high one first. -/
def readNtohU16 : Reader UInt16 := UInt16.ofNat <$> Reader.number 2

/-- Four octets, the high one first. -/
def readNtohU32 : Reader UInt32 := UInt32.ofNat <$> Reader.number 4

/-- Eight octets, the high one first. -/
def readNtohU64 : Reader UInt64 := UInt64.ofNat <$> Reader.number 8

/-- Two octets, the low one first. -/
def readLsbtohU16 : Reader UInt16 := UInt16.ofNat <$> Reader.numberLow 2

/-- Eight octets, the low one first. -/
def readLsbtohU64 : Reader UInt64 := UInt64.ofNat <$> Reader.numberLow 8

variable (data : UInt16)

/-- Two octets, as the machine has them. -/
def writeU16 : List UInt8 := (bigEndian 2 data.toNat).reverse

/-- Two octets, the high one first. -/
def writeHtonU16 : List UInt8 := bigEndian 2 data.toNat

/-- Four octets, the high one first. -/
def writeHtonU32 (data : UInt32) : List UInt8 := bigEndian 4 data.toNat

/-- Eight octets, the high one first. -/
def writeHtonU64 (data : UInt64) : List UInt8 := bigEndian 8 data.toNat

/-- Two octets, the low one first. -/
def writeHtolsbU16 : List UInt8 := (bigEndian 2 data.toNat).reverse

/-- Eight octets, the low one first. -/
def writeHtolsbU64 (data : UInt64) : List UInt8 := (bigEndian 8 data.toNat).reverse

@[simp] theorem read_snd (n : ℕ) (c : Cursor) : (read n c).2 = c.advance n := Reader.octets_snd n c

@[simp] theorem length_read (n : ℕ) (c : Cursor) : (read n c).1.length = n := Reader.length_octets n c

@[simp] theorem readNtohU16_snd (c : Cursor) : (readNtohU16 c).2 = c.advance 2 :=
  congrArg Prod.snd (Reader.number_apply 2 c)

@[simp] theorem readNtohU64_snd (c : Cursor) : (readNtohU64 c).2 = c.advance 8 :=
  congrArg Prod.snd (Reader.number_apply 8 c)

@[simp] theorem length_writeU16 : (writeU16 data).length = 2 := by simp [writeU16]

@[simp] theorem length_writeHtonU16 : (writeHtonU16 data).length = 2 :=
  length_bigEndian 2 data.toNat

@[simp] theorem length_writeHtonU64 (data : UInt64) : (writeHtonU64 data).length = 8 :=
  length_bigEndian 8 data.toNat

theorem reads_readU8 (b : UInt8) : readU8.Reads [b] b := Reader.reads_octet b

theorem reads_read {bytes : List UInt8} {n : ℕ} (h : bytes.length = n) : (read n).Reads bytes bytes := by
  rw [← h]
  exact Reader.reads_octets bytes

theorem reads_readU16_zero : readU16.Reads (writeU16 0) 0 :=
  (reads_readU8 0).bind ((reads_readU8 0).bind (.pure _))

theorem reads_readNtohU16 : readNtohU16.Reads (writeHtonU16 data) data := by
  have h := (Reader.reads_number 2 data.toNat).map UInt16.ofNat
  rwa [Nat.mod_eq_of_lt (Nat.lt_of_lt_of_eq data.toNat_lt (by decide : 2 ^ 16 = 256 ^ 2)),
    UInt16.ofNat_toNat] at h

theorem reads_readNtohU32 (data : UInt32) : readNtohU32.Reads (writeHtonU32 data) data := by
  have h := (Reader.reads_number 4 data.toNat).map UInt32.ofNat
  rwa [Nat.mod_eq_of_lt (Nat.lt_of_lt_of_eq data.toNat_lt (by decide : 2 ^ 32 = 256 ^ 4)),
    UInt32.ofNat_toNat] at h

theorem reads_readNtohU64 (data : UInt64) : readNtohU64.Reads (writeHtonU64 data) data := by
  have h := (Reader.reads_number 8 data.toNat).map UInt64.ofNat
  rwa [Nat.mod_eq_of_lt (Nat.lt_of_lt_of_eq data.toNat_lt (by decide : 2 ^ 64 = 256 ^ 8)),
    UInt64.ofNat_toNat] at h

theorem reads_readLsbtohU16 : readLsbtohU16.Reads (writeHtolsbU16 data) data := by
  have h := (Reader.reads_numberLow 2 data.toNat).map UInt16.ofNat
  rwa [Nat.mod_eq_of_lt (Nat.lt_of_lt_of_eq data.toNat_lt (by decide : 2 ^ 16 = 256 ^ 2)),
    UInt16.ofNat_toNat] at h

theorem reads_readLsbtohU64 (data : UInt64) : readLsbtohU64.Reads (writeHtolsbU64 data) data := by
  have h := (Reader.reads_numberLow 8 data.toNat).map UInt64.ofNat
  rwa [Nat.mod_eq_of_lt (Nat.lt_of_lt_of_eq data.toNat_lt (by decide : 2 ^ 64 = 256 ^ 8)),
    UInt64.ofNat_toNat] at h

end Buffer.Iterator

open Buffer

namespace Ipv4Address

/-- The four octets of the address. -/
def writeTo (a : Ipv4Address) : List UInt8 := Iterator.writeHtonU32 ⟨a.address⟩

/-- An address of four octets. -/
def readFrom : Reader Ipv4Address := (fun data => ⟨data.toBitVec⟩) <$> Iterator.readNtohU32

theorem reads_readFrom (a : Ipv4Address) : readFrom.Reads a.writeTo a :=
  (Iterator.reads_readNtohU32 ⟨a.address⟩).map fun data => (⟨data.toBitVec⟩ : Ipv4Address)

end Ipv4Address

namespace Ipv6Address

/-- `Set (address)`: the address of 16 octets. -/
def set (octets : List UInt8) : Ipv6Address := ⟨Vector.ofFn fun i => octets.getD i 0⟩

variable (a : Ipv6Address)

/-- The sixteen octets of the address. -/
def serialize : List UInt8 := a.address.toList

@[simp] theorem length_serialize : a.serialize.length = 16 := a.address.length_toList

theorem set_serialize : set a.serialize = a := by
  refine Ipv6Address.mk.injEq _ _ ▸ Vector.ext fun i hi => ?_
  simp [serialize]

theorem reads_address : (set <$> Iterator.read 16).Reads a.serialize a := by
  have h := (Iterator.reads_read a.length_serialize).map set
  rwa [set_serialize] at h

end Ipv6Address

namespace Identifier

/-- `Identifier (identifier, len)` and `CopyFrom`, of at most 255 octets. -/
def copyFrom (octets : List UInt8) : Identifier :=
  ⟨octets.take 255, List.length_take_le _ _⟩

theorem copyFrom_octets (i : Identifier) : copyFrom i.octets = i := by
  refine Identifier.mk.injEq _ _ _ _ ▸ ?_
  exact List.take_of_length_le i.length_le

theorem reads_identifier {i : Identifier} {n : ℕ} (h : i.octets.length = n) :
    (copyFrom <$> Iterator.read n).Reads i.octets i := by
  have h := (Iterator.reads_read h).map copyFrom
  rwa [copyFrom_octets] at h

end Identifier

end Ns3
