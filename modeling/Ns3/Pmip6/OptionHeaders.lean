import Ns3.Core.Timer
import Ns3.Network.Iterator
import Mathlib.Data.Int.Basic

/-!
# Option headers

The mobility options as octets (`pmip6/model/ipv6-mobility-option-header.cc`). All but `Pad1` begin
with a type and a length octet, and a class of headers differs from another in what follows: an
`OptionClass` says what that is, and how many octets `Deserialize` reads of it for each length
octet. `GetSerializedSize` goes by the length octet alone.

`AddOption` sees an option through its virtual functions, as an `Ipv6MobilityOptionHeader`.
-/

namespace Ns3

namespace Time

/-- A value of the `int64_t` nanoseconds of `Time`. -/
def Representable (t : ℤ) : Prop := -2 ^ 63 ≤ t ∧ t < 2 ^ 63
deriving Decidable

/-- `MicroSeconds (timestamp)` of a `uint64_t`: the nanoseconds are an `int64_t`. -/
def ofMicroSeconds (us : UInt64) : ℤ := Int.bmod (microSeconds us.toNat) (2 ^ 64)

/-- The `uint64_t` that `GetMicroSeconds ()` of a time is assigned to. -/
def toMicroSeconds (t : ℤ) : UInt64 := UInt64.ofNat (getMicroSeconds t % 2 ^ 64).toNat

theorem ofMicroSeconds_toMicroSeconds (t : ℤ) : ofMicroSeconds (toMicroSeconds t) = cutToMicroSeconds t := by
  have hus : ((toMicroSeconds t).toNat : ℤ) = getMicroSeconds t := by
    rw [toMicroSeconds, UInt64.toNat_ofNat', getMicroSeconds]
    omega
  rw [ofMicroSeconds, hus, cutToMicroSeconds]

end Time

namespace Pmip6.Wire

open Lib Buffer

/-- A multiple, and an offset from it. -/
structure Alignment where
  factor : UInt8
  offset : UInt8

/-- A header of an option: the fields of `Ipv6MobilityOptionHeader` and those of its class. -/
structure OptionHeader (β : Type) where
  type : UInt8
  len : UInt8
  fields : β

/-- A class of option headers. -/
structure OptionClass (β : Type) where
  alignment : Alignment := ⟨1, 0⟩
  /-- What `Serialize` writes behind the length octet. -/
  write : OptionHeader β → List UInt8
  /-- What `Deserialize` reads behind the length octet `len`. -/
  read : UInt8 → Reader β
  /-- The number of octets of that. -/
  readLength : UInt8 → ℕ
  read_snd : ∀ (len : UInt8) (c : Cursor), (read len c).2 = c.advance (readLength len)

/-- Type, length, and as many octets as the length says. -/
def OptionHeader.getSerializedSize {β : Type} (h : OptionHeader β) : ℕ := h.len.toNat + 2

namespace OptionClass

variable {β : Type} (K : OptionClass β)

/-- Type, length and fields. -/
def serialize (h : OptionHeader β) : List UInt8 := h.type :: h.len :: K.write h

/-- Type, length and fields are read. -/
def deserialize : Reader (OptionHeader β) := do
  let type ← Iterator.readU8
  let len ← Iterator.readU8
  let fields ← K.read len
  pure ⟨type, len, fields⟩

theorem deserialize_apply (c : Cursor) :
    K.deserialize c = (⟨c.octet c.pos, c.octet (c.pos + 1), (K.read (c.octet (c.pos + 1)) (c.advance 2)).1⟩,
      c.advance (2 + K.readLength (c.octet (c.pos + 1)))) := by
  have h := K.read_snd (c.octet (c.pos + 1)) (c.advance 2)
  rw [Cursor.advance_advance] at h
  rw [← h]
  rfl

theorem reads_deserialize {h : OptionHeader β} {b : β} (hf : (K.read h.len).Reads (K.write h) b) :
    K.deserialize.Reads (K.serialize h) ⟨h.type, h.len, b⟩ := by
  have hfields := hf.bind (f := fun fields => pure (⟨h.type, h.len, fields⟩ : OptionHeader β)) (.pure _)
  rw [List.append_nil] at hfields
  exact (Iterator.reads_readU8 h.type).bind ((Iterator.reads_readU8 h.len).bind hfields)

end OptionClass

/-! ### The classes -/

/-- `Ipv6MobilityOptionPadnHeader`. -/
def padn : OptionClass Unit where
  write h := List.replicate h.len.toNat 0
  read len := do
    let _ ← Iterator.read len.toNat
    pure ()
  readLength len := len.toNat
  read_snd len c := Iterator.read_snd len.toNat c

/-- The fields of `Ipv6MobilityOptionMobileNodeIdentifierHeader`. -/
structure MobileNodeIdentifier where
  subtype : UInt8
  nodeIdentifier : Identifier

/-- `Ipv6MobilityOptionMobileNodeIdentifierHeader`. `SetNodeIdentifier` sets the length again, to that
of the identifier and the subtype: what was read. -/
def mobileNodeIdentifier : OptionClass MobileNodeIdentifier where
  write h := h.fields.subtype :: h.fields.nodeIdentifier.octets
  read len := do
    let subtype ← Iterator.readU8
    -- `len--` of a `uint8_t`
    let nodeIdentifier ← Identifier.copyFrom <$> Iterator.read (len - 1).toNat
    pure ⟨subtype, nodeIdentifier⟩
  readLength len := 1 + (len - 1).toNat
  read_snd len c := by
    change (Iterator.read (len - 1).toNat (c.advance 1)).2 = _
    rw [Iterator.read_snd, Cursor.advance_advance]

/-- The fields of `Ipv6MobilityOptionHomeNetworkPrefixHeader`. -/
structure HomeNetworkPrefix where
  reserved : UInt8 := 0
  prefixLen : UInt8
  /-- `m_prefix`. -/
  pfx : Ipv6Address

/-- `Ipv6MobilityOptionHomeNetworkPrefixHeader`. -/
def homeNetworkPrefix : OptionClass HomeNetworkPrefix where
  alignment := ⟨8, 4⟩
  write h := h.fields.reserved :: h.fields.prefixLen :: h.fields.pfx.serialize
  read _ := do
    let reserved ← Iterator.readU8
    let prefixLen ← Iterator.readU8
    let pfx ← Ipv6Address.set <$> Iterator.read 16
    pure ⟨reserved, prefixLen, pfx⟩
  readLength _ := 18
  read_snd _ c := by
    change (Iterator.read 16 (c.advance 2)).2 = _
    rw [Iterator.read_snd, Cursor.advance_advance]

/-- The fields of an option of one octet. -/
structure Indication where
  reserved : UInt8 := 0
  /-- `m_handoffIndicator` or `m_accessTechnologyType`. -/
  value : UInt8

/-- A class of options of one octet. -/
def indication : OptionClass Indication where
  write h := [h.fields.reserved, h.fields.value]
  read _ := do
    let reserved ← Iterator.readU8
    let value ← Iterator.readU8
    pure ⟨reserved, value⟩
  readLength _ := 2
  read_snd _ _ := rfl

/-- `Ipv6MobilityOptionHandoffIndicatorHeader`. -/
def handoffIndicator : OptionClass Indication := indication

/-- `Ipv6MobilityOptionAccessTechnologyTypeHeader`. -/
def accessTechnologyType : OptionClass Indication := indication

/-- The fields of `Ipv6MobilityOptionMobileNodeLinkLayerIdentifierHeader`. -/
structure LinkLayerIdentifier where
  reserved : UInt16 := 0
  linkLayerIdentifier : Identifier

/-- `Ipv6MobilityOptionMobileNodeLinkLayerIdentifierHeader`. -/
def mobileNodeLinkLayerIdentifier : OptionClass LinkLayerIdentifier where
  alignment := ⟨2, 0⟩
  write h := Iterator.writeHtonU16 h.fields.reserved ++ h.fields.linkLayerIdentifier.octets
  read len := do
    let reserved ← Iterator.readNtohU16
    -- `len -= 2` of a `uint8_t`
    let linkLayerIdentifier ← Identifier.copyFrom <$> Iterator.read (len - 2).toNat
    pure ⟨reserved, linkLayerIdentifier⟩
  readLength len := 2 + (len - 2).toNat
  read_snd len c := by
    change (Iterator.read (len - 2).toNat (Iterator.readNtohU16 c).2).2 = _
    rw [Iterator.read_snd, Iterator.readNtohU16_snd, Cursor.advance_advance]

/-- `Ipv6MobilityOptionLinkLocalAddressHeader`. -/
def linkLocalAddress : OptionClass Ipv6Address where
  alignment := ⟨8, 6⟩
  write h := h.fields.serialize
  read _ := Ipv6Address.set <$> Iterator.read 16
  readLength _ := 16
  read_snd _ c := Iterator.read_snd 16 c

/-- `Ipv6MobilityOptionTimestampHeader`. -/
def timestamp : OptionClass ℤ where
  alignment := ⟨8, 6⟩
  write h := Iterator.writeHtonU64 (Time.toMicroSeconds h.fields)
  read _ := Time.ofMicroSeconds <$> Iterator.readNtohU64
  readLength _ := 8
  read_snd _ c := Iterator.readNtohU64_snd c

/-! ### Headers that are sent -/

/-- An option as `AddOption` sees it. It writes at least the octets it reserves. -/
structure Ipv6MobilityOptionHeader where
  alignment : Alignment := ⟨1, 0⟩
  serializedSize : ℕ
  /-- What `Serialize` writes. -/
  serialize : List UInt8
  serializedSize_le : serializedSize ≤ serialize.length

/-- A header whose fields take the octets its length octet says, or more. -/
def OptionClass.header {β : Type} (K : OptionClass β) (h : OptionHeader β)
    (hlen : h.len.toNat ≤ (K.write h).length) : Ipv6MobilityOptionHeader where
  alignment := K.alignment
  serializedSize := h.getSerializedSize
  serialize := K.serialize h
  serializedSize_le := Nat.add_le_add_right hlen 2

namespace Ipv6MobilityOptionHeader

/-- `Ipv6MobilityOptionPad1Header ()`. -/
def pad1 : Ipv6MobilityOptionHeader where
  serializedSize := 1
  serialize := [0]
  serializedSize_le := Nat.le_refl 1

/-- `Ipv6MobilityOptionPadnHeader (length)`. -/
def padn (length : UInt8) : Ipv6MobilityOptionHeader :=
  Wire.padn.header ⟨1, length - 2, ()⟩ (by simp [Wire.padn])

/-- An `Ipv6MobilityOptionMobileNodeIdentifierHeader` with `SetSubtype (subtype)` and
`SetNodeIdentifier (id)`. -/
def mobileNodeIdentifier (subtype : UInt8) (id : Identifier) : Ipv6MobilityOptionHeader :=
  Wire.mobileNodeIdentifier.header ⟨8, UInt8.ofNat id.octets.length + 1, ⟨subtype, id⟩⟩ (by
    simp only [Wire.mobileNodeIdentifier, List.length_cons, UInt8.toNat_add, UInt8.toNat_ofNat',
      UInt8.reduceToNat]
    omega)

/-- An `Ipv6MobilityOptionHomeNetworkPrefixHeader` with `SetPrefix (hnp)` and `SetPrefixLength (plen)`. -/
def homeNetworkPrefix (hnp : Ipv6Address) (plen : UInt8) : Ipv6MobilityOptionHeader :=
  Wire.homeNetworkPrefix.header ⟨22, 18, ⟨0, plen, hnp⟩⟩ (by simp [Wire.homeNetworkPrefix])

/-- An `Ipv6MobilityOptionHandoffIndicatorHeader` with `SetHandoffIndicator (hi)`. -/
def handoffIndicator (hi : UInt8) : Ipv6MobilityOptionHeader :=
  Wire.handoffIndicator.header ⟨23, 2, ⟨0, hi⟩⟩ (by simp [Wire.handoffIndicator, indication])

/-- An `Ipv6MobilityOptionAccessTechnologyTypeHeader` with `SetAccessTechnologyType (att)`. -/
def accessTechnologyType (att : UInt8) : Ipv6MobilityOptionHeader :=
  Wire.accessTechnologyType.header ⟨24, 2, ⟨0, att⟩⟩ (by simp [Wire.accessTechnologyType, indication])

/-- An `Ipv6MobilityOptionMobileNodeLinkLayerIdentifierHeader` with `SetLinkLayerIdentifier (llid)`. -/
def mobileNodeLinkLayerIdentifier (llid : Identifier) : Ipv6MobilityOptionHeader :=
  Wire.mobileNodeLinkLayerIdentifier.header ⟨25, 2 + UInt8.ofNat llid.octets.length, ⟨0, llid⟩⟩ (by
    simp only [Wire.mobileNodeLinkLayerIdentifier, List.length_append, Iterator.length_writeHtonU16,
      UInt8.toNat_add, UInt8.toNat_ofNat', UInt8.reduceToNat]
    omega)

/-- An `Ipv6MobilityOptionLinkLocalAddressHeader` with `SetLinkLocalAddress (lla)`. -/
def linkLocalAddress (lla : Ipv6Address) : Ipv6MobilityOptionHeader :=
  Wire.linkLocalAddress.header ⟨26, 16, lla⟩ (by simp [Wire.linkLocalAddress])

/-- An `Ipv6MobilityOptionTimestampHeader` with `SetTimestamp (t)`. -/
def timestamp (t : ℤ) : Ipv6MobilityOptionHeader :=
  Wire.timestamp.header ⟨27, 8, t⟩ (by simp [Wire.timestamp])

end Ipv6MobilityOptionHeader

end Pmip6.Wire

end Ns3
