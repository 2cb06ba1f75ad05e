import Ns3.Lib.Parser

/-!
# Packets of PacketBB

The packets of `packetbb.cc`: messages with address blocks, all of them with type-length-value structures (TLVs).
Each of them says how many octets it takes (`getSerializedSize`, a `uint32_t`), writes them and reads them again.

* `Tlv`, `TlvBlock` — a TLV, and the TLVs of a packet, a message or an address block behind their size of 16 bits.
* `AddressBlock`, `HeadTail` — addresses without the octets that `GetHeadTail` finds at their start and end.
* `Message`, `Packet` — the size of a message has 16 bits, and a packet goes on to the end of the octets.
* `Tlv.Made`, `AddressBlock.Made`, `Message.Made`, `Packet.Made` — what can be built through the setters.

Where an octet is skipped and not written it keeps what was there: `blank`. A TLV, an address block or a message is
read from the octets that are left of the packet, whatever the size says that is around it.
-/

namespace Ns3.PacketBB

open Lib Parser

/-- `flags |= mask`. -/
def flag (b : Bool) (mask : UInt8) : UInt8 := if b then mask else 0

/-- `flags & mask`. -/
def has (flags mask : UInt8) : Bool := flags &&& mask != 0

/-- `PbbAddressLength`: the addresses of a class of messages or address blocks. -/
inductive AddressLength where
  | ipv4
  | ipv6
  deriving DecidableEq

/-- The enumerator: `PbbMessage::GetAddressLength`. -/
def AddressLength.value : AddressLength → UInt8
  | ipv4 => 3
  | ipv6 => 15

/-- `PbbAddressBlock::GetAddressLength`. -/
def AddressLength.octets : AddressLength → ℕ
  | ipv4 => 4
  | ipv6 => 16

/-! ### TLVs -/

/-- `PbbTlv`, and `PbbAddressTlv`, where the indexes and the flag for several values can be set. -/
structure Tlv where
  type : UInt8
  typeExt : Option UInt8
  indexStart : Option UInt8
  indexStop : Option UInt8
  isMultivalue : Bool
  value : Option (List UInt8)

namespace Tlv

variable (t : Tlv)

/-- A value has up to 65535 octets. -/
def Made : Prop := ∀ value ∈ t.value, value.length ≤ 65535

/-- The octets of a TLV. -/
def getSerializedSize : UInt32 :=
  2 + (if t.typeExt.isSome then 1 else 0) + (if t.indexStart.isSome then 1 else 0) +
    (if t.indexStop.isSome then 1 else 0) +
    t.value.elim 0 fun value => (if 255 < value.length then 2 else 1) + UInt32.ofNat value.length

/-- The flags `THAS_TYPE_EXT`, `THAS_MULTI_INDEX`, `THAS_SINGLE_INDEX`, `THAS_VALUE`, `THAS_EXT_LEN` and
`TIS_MULTIVALUE`. -/
def flags : UInt8 :=
  flag t.typeExt.isSome 0x80 ||| flag (t.indexStart.isSome && t.indexStop.isSome) 0x20 |||
    flag (t.indexStart.isSome && !t.indexStop.isSome) 0x40 ||| flag t.value.isSome 0x10 |||
    flag (t.value.any fun value => 255 < value.length) 0x08 ||| flag (t.value.isSome && t.isMultivalue) 0x04

/-- The indexes are written with the first of them only. -/
def writeIndexes : List UInt8 :=
  match t.indexStart, t.indexStop with
  | none, _ => []
  | some start, none => [start]
  | some start, some stop => [start, stop]

/-- The value behind its length, in two octets if it needs them. -/
def writeValue (value : List UInt8) : List UInt8 :=
  bigEndian (if 255 < value.length then 2 else 1) value.length ++ value

/-- Type, flags, what the flags say is there, and the value. -/
def serialize : List UInt8 :=
  t.type :: t.flags :: (t.typeExt.elim [] (fun typeExt => [typeExt]) ++ (t.writeIndexes ++ t.value.elim [] writeValue))

/-- The indexes, as `Deserialize` reads them. -/
def readIndexes (flags : UInt8) : Parser (Option UInt8 × Option UInt8) :=
  if has flags 0x20 then do
    let start ← octet
    let stop ← octet
    pure (some start, some stop)
  else if has flags 0x40 then do
    let start ← octet
    pure (some start, none)
  else pure (none, none)

/-- The value, as `Deserialize` reads it. -/
def readValue (flags : UInt8) : Parser (List UInt8) := do
  let len ← number (if has flags 0x08 then 2 else 1)
  octets len

/-- `Deserialize`. The flag for several values is not looked at. -/
def deserialize : Parser Tlv := do
  let type ← octet
  let flags ← octet
  let typeExt ← optional (has flags 0x80) octet
  let indexes ← readIndexes flags
  let value ← optional (has flags 0x10) (readValue flags)
  pure ⟨type, typeExt, indexes.1, indexes.2, false, value⟩

end Tlv

namespace TlvBlock

/-- Two octets for the size, and the TLVs. -/
def getSerializedSize (tlvs : List Tlv) : UInt32 := tlvs.foldl (fun size t => size + t.getSerializedSize) 2

/-- `PbbTlvBlock::Serialize`. The size is a `uint16_t`. -/
def serialize (tlvs : List Tlv) : List UInt8 :=
  let octets := tlvs.flatMap Tlv.serialize
  if tlvs.isEmpty then bigEndian 2 0 else bigEndian 2 octets.length ++ octets

/-- TLVs, until so many octets are read. -/
def deserialize : Parser (List Tlv) := do
  let size ← number 2
  below Tlv.deserialize size 0

end TlvBlock

/-! ### Address blocks -/

/-- A loop that goes up to `n` and stops at the first number with a property. -/
def firstUpTo (n : ℕ) (p : ℕ → Bool) : ℕ := (List.range n).findIdx p

/-- The state of the loop of `GetHeadTail`. -/
structure HeadTail where
  headlen : ℕ
  taillen : ℕ
  buflast : List UInt8
  bufcur : List UInt8

namespace HeadTail

/-- One round of the loop of `GetHeadTail`. The tail is counted from the end, to at most one octet more than before and
down to the octet behind the one at which the head ends. The branch for an empty head is never taken: it stands behind
one that an empty head takes. The buffers change places in the end. -/
def next (len : ℕ) (s : HeadTail) (address : List UInt8) : HeadTail :=
  let headlen := firstUpTo s.headlen fun i => s.buflast[i]? != address[i]?
  { headlen := headlen
    taillen :=
      if headlen ≤ len - 1 then
        firstUpTo (min (s.taillen + 1) (len - 1 - headlen)) fun k => s.buflast[len - 1 - k]? != address[len - 1 - k]?
      else s.taillen
    buflast := address
    bufcur := s.buflast }

/-- What `GetHeadTail` finds. The loop begins with the first address: `AddressBegin ()++` is `AddressBegin ()`. -/
def find (len : ℕ) (addresses : List (List UInt8)) : HeadTail :=
  addresses.foldl (next len) ⟨len, len, addresses.headD [], []⟩

/-- What the addresses share at the beginning. -/
def head (s : HeadTail) : List UInt8 := s.bufcur.take s.headlen

/-- What the addresses share at the end. -/
def tail (len : ℕ) (s : HeadTail) : List UInt8 := s.bufcur.drop (len - s.taillen)

end HeadTail

/-- All octets of the tail are zero. -/
def hasZeroTail (tail : List UInt8) : Bool := tail.all (· == 0)

/-- `PbbAddressBlock`. -/
structure AddressBlock where
  /-- The class, `PbbAddressBlockIpv4` or `PbbAddressBlockIpv6`. -/
  kind : AddressLength
  /-- `m_addressList`, the octets of each address. -/
  addresses : List (List UInt8)
  /-- `m_prefixList`. -/
  prefixes : List UInt8
  /-- `m_addressTlvList`. -/
  tlvs : List Tlv

namespace AddressBlock

variable (b : AddressBlock)

/-- The members of an address block. -/
def members : List (List UInt8) × List UInt8 × List Tlv := (b.addresses, b.prefixes, b.tlvs)

/-- There are up to 255 addresses of the class, with no prefix length, one or as many. -/
structure Made (b : AddressBlock) : Prop where
  count : b.addresses.length ≤ 255
  octets : ∀ address ∈ b.addresses, address.length = b.kind.octets
  prefixes : b.prefixes.length = 0 ∨ b.prefixes.length = 1 ∨ b.prefixes.length = b.addresses.length
  tlvs : ∀ t ∈ b.tlvs, t.Made

/-- The head and the tail that the program finds. -/
def getHeadTail : HeadTail := HeadTail.find b.kind.octets b.addresses

/-- What `GetSerializedSize` adds for several addresses. -/
def compressedSize : UInt32 :=
  let s := b.getHeadTail
  (if 0 < s.headlen then UInt32.ofNat (1 + s.headlen) else 0) +
    (if 0 < s.taillen then 1 + (if hasZeroTail (s.tail b.kind.octets) then 0 else UInt32.ofNat s.taillen) else 0) +
    UInt32.ofInt (((b.kind.octets : ℤ) - s.headlen - s.taillen) * b.addresses.length) + UInt32.ofNat b.prefixes.length

/-- The octets that the block is said to take. -/
def getSerializedSize (b : AddressBlock) : UInt32 :=
  2 + (if b.addresses.length = 1 then UInt32.ofNat (b.kind.octets + b.prefixes.length)
    else if 0 < b.addresses.length then b.compressedSize
    else 0) + TlvBlock.getSerializedSize b.tlvs

/-- `GetPrefixFlags`: `AHAS_SINGLE_PRE_LEN` or `AHAS_MULTI_PRE_LEN`. -/
def getPrefixFlags : UInt8 :=
  match b.prefixes.length with
  | 0 => 0
  | 1 => 0x10
  | _ => 0x08

/-- The flags of several addresses: `AHAS_HEAD`, `AHAS_ZERO_TAIL` and `AHAS_FULL_TAIL`, and those of the prefixes. -/
def compressedFlags : UInt8 :=
  let s := b.getHeadTail
  flag (0 < s.headlen) 0x80 ||| flag (0 < s.taillen && hasZeroTail (s.tail b.kind.octets)) 0x20 |||
    flag (0 < s.taillen && !hasZeroTail (s.tail b.kind.octets)) 0x40 ||| b.getPrefixFlags

/-- What `Serialize` writes for several addresses. -/
def writeCompressed : List UInt8 :=
  let s := b.getHeadTail
  (if 0 < s.headlen then UInt8.ofNat s.headlen :: s.head else []) ++
    ((if 0 < s.taillen then
        UInt8.ofNat s.taillen :: if hasZeroTail (s.tail b.kind.octets) then [] else s.tail b.kind.octets
      else []) ++
    ((if s.headlen + s.taillen < b.kind.octets then
        b.addresses.flatMap fun address => (address.drop s.headlen).take (b.kind.octets - s.headlen - s.taillen)
      else []) ++ b.prefixes))

/-- The flags and the addresses with their prefixes. Without addresses the flags are skipped. -/
def writeAddresses (blank : UInt8) (b : AddressBlock) : UInt8 × List UInt8 :=
  if b.addresses.length = 1 then
    (flag (b.prefixes.length = 1) 0x10, b.addresses.flatten ++ if b.prefixes.length = 1 then b.prefixes else [])
  else if 0 < b.addresses.length then (b.compressedFlags, b.writeCompressed)
  else (blank, [])

/-- The number of addresses, the flags, the addresses and the TLVs. -/
def serialize (blank : UInt8) (b : AddressBlock) : List UInt8 :=
  UInt8.ofNat b.addresses.length :: (b.writeAddresses blank).1 ::
    ((b.writeAddresses blank).2 ++ TlvBlock.serialize b.tlvs)

/-- Octets are read into a buffer as long as an address. -/
def readInto (len n : ℕ) : Parser (List UInt8) := if n ≤ len then octets n else fail .outside

/-- The head, as `Deserialize` reads it. -/
def readHead (len : ℕ) (flags : UInt8) : Parser (List UInt8) :=
  if has flags 0x80 then do
    let headlen ← octet
    readInto len headlen.toNat
  else pure []

/-- The tail, as `Deserialize` reads it. The buffer was filled with zeros. -/
def readTail (len : ℕ) (flags : UInt8) : Parser (List UInt8) :=
  if (flags &&& 0x40) ^^^ (flags &&& 0x20) != 0 then do
    let taillen ← octet
    if has flags 0x40 then readInto len taillen.toNat else pure (List.replicate taillen.toNat 0)
  else pure []

variable (len numaddr : ℕ)

/-- The addresses, as `Deserialize` reads them between the head and the tail. If these are longer than an address, the
number of octets between them is negative, and taken as a very large one. -/
def readMiddles (head tail : List UInt8) : Parser (List (List UInt8)) :=
  if head.length + tail.length ≤ len then
    times (do
      let middle ← octets (len - head.length - tail.length)
      pure (head ++ (middle ++ tail))) numaddr
  else fail .outside

/-- The prefixes, as `Deserialize` reads them. -/
def readPrefixes (numaddr : ℕ) (flags : UInt8) : Parser (List UInt8) :=
  if has flags 0x10 then do
    let pfx ← octet
    pure [pfx]
  else if has flags 0x08 then times octet numaddr
  else pure []

/-- Some addresses and their prefixes, as `Deserialize` reads them. -/
def readSome (flags : UInt8) : Parser (List (List UInt8) × List UInt8) := do
  let head ← readHead len flags
  let tail ← readTail len flags
  let addresses ← readMiddles len numaddr head tail
  let prefixes ← readPrefixes numaddr flags
  pure (addresses, prefixes)

/-- The addresses and their prefixes, as `Deserialize` reads them. -/
def readAddresses (flags : UInt8) : Parser (List (List UInt8) × List UInt8) :=
  if 0 < numaddr then readSome len numaddr flags else pure ([], [])

/-- Addresses and TLVs are read. -/
def deserialize (kind : AddressLength) : Parser AddressBlock := do
  let numaddr ← octet
  let flags ← octet
  let addresses ← readAddresses kind.octets numaddr.toNat flags
  let tlvs ← TlvBlock.deserialize
  pure ⟨kind, addresses.1, addresses.2, tlvs⟩

end AddressBlock

/-! ### Messages -/

/-- `PbbMessage`. -/
structure Message where
  /-- The class, `PbbMessageIpv4` or `PbbMessageIpv6`. -/
  kind : AddressLength
  type : UInt8
  originatorAddress : Option (List UInt8)
  hopLimit : Option UInt8
  hopCount : Option UInt8
  sequenceNumber : Option UInt16
  /-- `m_tlvList`. -/
  tlvs : List Tlv
  /-- `m_addressBlockList`. -/
  addressBlocks : List AddressBlock

namespace Message

/-- The members of a message, and its address length. -/
def members (m : Message) : (AddressLength × UInt8 × Option (List UInt8) × Option UInt8 × Option UInt8 ×
    Option UInt16 × List Tlv) × List (List (List UInt8) × List UInt8 × List Tlv) :=
  ((m.kind, m.type, m.originatorAddress, m.hopLimit, m.hopCount, m.sequenceNumber, m.tlvs),
    m.addressBlocks.map AddressBlock.members)

/-- The originator has an address of the class. -/
structure Made (m : Message) : Prop where
  originatorAddress : ∀ address ∈ m.originatorAddress, address.length = m.kind.octets
  tlvs : ∀ t ∈ m.tlvs, t.Made
  addressBlocks : ∀ b ∈ m.addressBlocks, b.Made

/-- What `GetSerializedSize` adds for the fields that a message need not have. -/
def fieldsSize (m : Message) : UInt32 :=
  (if m.originatorAddress.isSome then m.kind.value.toUInt32 + 1 else 0) + (if m.hopLimit.isSome then 1 else 0) +
    (if m.hopCount.isSome then 1 else 0) + (if m.sequenceNumber.isSome then 2 else 0)

/-- The octets that the message is said to take. -/
def getSerializedSize (m : Message) : UInt32 :=
  m.addressBlocks.foldl (fun size b => size + b.getSerializedSize)
    (4 + m.fieldsSize + TlvBlock.getSerializedSize m.tlvs)

/-- The flags `MHAS_ORIG`, `MHAS_HOP_LIMIT`, `MHAS_HOP_COUNT` and `MHAS_SEQ_NUM`, with the address length. -/
def flags (m : Message) : UInt8 :=
  m.kind.value ||| flag m.originatorAddress.isSome 0x80 ||| flag m.hopLimit.isSome 0x40 |||
    flag m.hopCount.isSome 0x20 ||| flag m.sequenceNumber.isSome 0x10

/-- The fields that a message need not have. -/
def writeFields (m : Message) : List UInt8 :=
  m.originatorAddress.elim [] id ++ (m.hopLimit.elim [] (fun hopLimit => [hopLimit]) ++
    (m.hopCount.elim [] (fun hopCount => [hopCount]) ++
      m.sequenceNumber.elim [] fun sequenceNumber => bigEndian 2 sequenceNumber.toNat))

/-- What comes behind the size. -/
def writeBody (blank : UInt8) (m : Message) : List UInt8 :=
  m.writeFields ++ (TlvBlock.serialize m.tlvs ++ m.addressBlocks.flatMap (AddressBlock.serialize blank))

/-- `Serialize`. The size is a `uint16_t`. -/
def serialize (blank : UInt8) (m : Message) : List UInt8 :=
  m.type :: m.flags :: (bigEndian 2 (4 + (m.writeBody blank).length) ++ m.writeBody blank)

/-- The size, and the message without what comes behind its fields, as `Deserialize` reads them. -/
def readFields (kind : AddressLength) : Parser (ℕ × Message) := do
  let type ← octet
  let flags ← octet
  let size ← number 2
  let originatorAddress ← optional (has flags 0x80) (octets kind.octets)
  let hopLimit ← optional (has flags 0x40) octet
  let hopCount ← optional (has flags 0x20) octet
  let sequenceNumber ← optional (has flags 0x10) (UInt16.ofNat <$> number 2)
  pure (size, ⟨kind, type, originatorAddress, hopLimit, hopCount, sequenceNumber, [], []⟩)

/-- `Deserialize`, of a class. -/
def deserialize (kind : AddressLength) : Parser Message := do
  let fields ← counted (readFields kind)
  let tlvs ← counted TlvBlock.deserialize
  let addressBlocks ← below (AddressBlock.deserialize kind) fields.1.1 (fields.2 + tlvs.2)
  pure { fields.1.2 with tlvs := tlvs.1, addressBlocks := addressBlocks }

/-- The class that `DeserializeMessage` takes for the address length in the flags. -/
def kindOf (flags : UInt8) : Option AddressLength :=
  match flags &&& 0xf with
  | 0 => some .ipv4
  | 3 => some .ipv4
  | 15 => some .ipv6
  | _ => none

/-- A message of a class, or none if the class is not known. -/
def deserializeAs : Option AddressLength → Parser (Option Message)
  | some kind => some <$> deserialize kind
  | none => pure none

/-- The flags say how long addresses are. -/
def deserializeMessage : Parser (Option Message) := do
  match ← get with
  | _ :: flags :: _ => deserializeAs (kindOf flags)
  | _ => fail .ended

end Message

/-! ### Packets -/

/-- The version of the format. -/
def version : UInt8 := 0

/-- `PbbPacket`. -/
structure Packet where
  version : UInt8
  /-- `m_seqnum`. -/
  sequenceNumber : Option UInt16
  /-- `m_tlvList`. -/
  tlvs : List Tlv
  /-- `m_messageList`. -/
  messages : List Message

namespace Packet

/-- The constructor sets the version, and nothing changes it. -/
structure Made (p : Packet) : Prop where
  version : p.version = PacketBB.version
  tlvs : ∀ t ∈ p.tlvs, t.Made
  messages : ∀ m ∈ p.messages, m.Made

/-- Every member of the packets is equal, and so in their messages, address blocks and TLVs. -/
structure Equal (p q : Packet) : Prop where
  version : p.version = q.version
  sequenceNumber : p.sequenceNumber = q.sequenceNumber
  tlvs : p.tlvs = q.tlvs
  messages : p.messages.map Message.members = q.messages.map Message.members

/-- The octets that the packet is said to take. -/
def getSerializedSize (p : Packet) : UInt32 :=
  p.messages.foldl (fun size m => size + m.getSerializedSize)
    (1 + (if p.sequenceNumber.isSome then 2 else 0) +
      if p.tlvs.isEmpty then 0 else TlvBlock.getSerializedSize p.tlvs)

/-- The version with the flags `PHAS_SEQ_NUM` and `PHAS_TLV`. -/
def flags (p : Packet) : UInt8 :=
  PacketBB.version <<< 4 ||| flag p.sequenceNumber.isSome 0x8 ||| flag (!p.tlvs.isEmpty) 0x4

/-- Flags, sequence number, TLVs and messages. -/
def serialize (blank : UInt8) (p : Packet) : List UInt8 :=
  p.flags :: (p.sequenceNumber.elim [] (fun sequenceNumber => bigEndian 2 sequenceNumber.toNat) ++
    ((if p.tlvs.isEmpty then [] else TlvBlock.serialize p.tlvs) ++ p.messages.flatMap (Message.serialize blank)))

/-- The TLVs, as `Deserialize` reads them. -/
def readTlvs (flags : UInt8) : Parser (List Tlv) := if has flags 0x4 then TlvBlock.deserialize else pure []

/-- `Deserialize`. A message of an unknown class ends it, and the version is not set. -/
def deserialize : Parser Packet := do
  let flags ← octet
  let sequenceNumber ← optional (has flags 0x8) (UInt16.ofNat <$> number 2)
  let tlvs ← readTlvs flags
  let messages ← toEnd Message.deserializeMessage
  pure ⟨if messages.2 then flags >>> 4 else PacketBB.version, sequenceNumber, tlvs, messages.1⟩

end Packet

end Ns3.PacketBB
