import Ns3.Pmip6.MobilityHeaders

/-!
# What the decoders read

The `Deserialize` methods of the two messages and of every mobility option read as many octets as
they compute from the length octet, and do not look where their octets end. `Decoder.bounded_iff`
says for which length octets each of them reads no more than the octet announces: the messages take
their fixed part from the length announced, two options their first octets, in unsigned arithmetic,
and the other options read a fixed number of octets whatever is announced.
-/

namespace Ns3.Pmip6.Wire

open Lib Buffer

/-- The `Deserialize` methods. -/
inductive Decoder where
  /-- `Ipv6MobilityBindingUpdateHeader`. -/
  | bindingUpdate
  /-- `Ipv6MobilityBindingAckHeader`. -/
  | bindingAck
  /-- `Ipv6MobilityOptionPad1Header`. -/
  | pad1
  /-- `Ipv6MobilityOptionPadnHeader`. -/
  | padn
  /-- `Ipv6MobilityOptionMobileNodeIdentifierHeader`. -/
  | mobileNodeIdentifier
  /-- `Ipv6MobilityOptionHomeNetworkPrefixHeader`. -/
  | homeNetworkPrefix
  /-- `Ipv6MobilityOptionHandoffIndicatorHeader`. -/
  | handoffIndicator
  /-- `Ipv6MobilityOptionAccessTechnologyTypeHeader`. -/
  | accessTechnologyType
  /-- `Ipv6MobilityOptionMobileNodeLinkLayerIdentifierHeader`. -/
  | mobileNodeLinkLayerIdentifier
  /-- `Ipv6MobilityOptionLinkLocalAddressHeader`. -/
  | linkLocalAddress
  /-- `Ipv6MobilityOptionTimestampHeader`. -/
  | timestamp
  deriving DecidableEq

/-- What the `Deserialize` of a class returns: the `GetSerializedSize` of what it read. -/
def OptionClass.size {β : Type} (K : OptionClass β) : Reader ℕ :=
  OptionHeader.getSerializedSize <$> K.deserialize

theorem OptionClass.size_apply {β : Type} (K : OptionClass β) (c : Cursor) :
    K.size c = ((c.octet (c.pos + 1)).toNat + 2, c.advance (2 + K.readLength (c.octet (c.pos + 1)))) := by
  change (OptionHeader.getSerializedSize (K.deserialize c).1, (K.deserialize c).2) = _
  rw [K.deserialize_apply]
  rfl

namespace Decoder

/-- `Deserialize`: it returns a size. -/
def deserialize : Decoder → Reader ℕ
  | bindingUpdate => Ipv6MobilityBindingUpdateHeader.getSerializedSize <$>
      Ipv6MobilityBindingUpdateHeader.deserialize
  | bindingAck => Ipv6MobilityBindingAckHeader.getSerializedSize <$>
      Ipv6MobilityBindingAckHeader.deserialize
  | pad1 => do
    let _ ← Iterator.readU8
    pure 1
  | padn => Wire.padn.size
  | mobileNodeIdentifier => Wire.mobileNodeIdentifier.size
  | homeNetworkPrefix => Wire.homeNetworkPrefix.size
  | handoffIndicator => Wire.handoffIndicator.size
  | accessTechnologyType => Wire.accessTechnologyType.size
  | mobileNodeLinkLayerIdentifier => Wire.mobileNodeLinkLayerIdentifier.size
  | linkLocalAddress => Wire.linkLocalAddress.size
  | timestamp => Wire.timestamp.size

/-- The number of octets that the length octet `len` announces; `Pad1` is one octet, and has none. -/
def announced : Decoder → UInt8 → ℕ
  | bindingUpdate, len | bindingAck, len => (len.toNat + 1) * 8
  | pad1, _ => 1
  | _, len => 2 + len.toNat

/-- The decoders of options. -/
def IsOption (d : Decoder) : Prop := d ≠ bindingUpdate ∧ d ≠ bindingAck
deriving Decidable

/-- At the place `c`, the method reads no more than is announced; that of an option reads what it
returns. -/
structure Bounded (d : Decoder) (c : Cursor) : Prop where
  /-- What is read lies in what is announced. -/
  announced : d.deserialize.consumed c ≤ d.announced (c.octet (c.pos + 1))
  /-- What is read is what is returned. -/
  returned : d.IsOption → d.deserialize.consumed c = (d.deserialize c).1

/-- The length octet is one the method is made for. -/
def Fits : Decoder → UInt8 → Prop
  | bindingUpdate, len | bindingAck, len | mobileNodeIdentifier, len => 1 ≤ len.toNat
  | pad1, _ | padn, _ => True
  | mobileNodeLinkLayerIdentifier, len => 2 ≤ len.toNat
  | homeNetworkPrefix, len => len = 18
  | handoffIndicator, len | accessTechnologyType, len => len = 2
  | linkLocalAddress, len => len = 16
  | timestamp, len => len = 8

/-- For an option, what follows the length octet is as long as that says. -/
theorem bounded_iff_of_size {β : Type} {K : OptionClass β} {d : Decoder} (hd : d.deserialize = K.size)
    (ho : d.IsOption) {c : Cursor} (ha : ∀ len, d.announced len = 2 + len.toNat) :
    d.Bounded c ↔ K.readLength (c.octet (c.pos + 1)) = (c.octet (c.pos + 1)).toNat := by
  have hread : d.deserialize.consumed c = 2 + K.readLength (c.octet (c.pos + 1)) := by
    rw [hd]
    exact Reader.consumed_eq (congrArg Prod.snd (K.size_apply c))
  have hret : (d.deserialize c).1 = (c.octet (c.pos + 1)).toNat + 2 := by
    rw [hd, K.size_apply]
  constructor
  · intro h
    have hsize := h.returned ho
    omega
  · intro h
    constructor
    · rw [hread, ha, h]
    · intro _
      rw [hread, hret, h, Nat.add_comm]

/-- An option of `n` octets is read right if its length octet says `n`. -/
theorem length_eq_iff (n len : UInt8) : n.toNat = len.toNat ↔ len = n := by
  rw [UInt8.toNat_inj, eq_comm]

theorem consumed_bindingUpdate (c : Cursor) : bindingUpdate.deserialize.consumed c =
    12 + Ipv6MobilityBindingUpdateHeader.optionsLength (c.octet (c.pos + 1)) := by
  refine Reader.consumed_eq ?_
  rw [deserialize, Ipv6MobilityBindingUpdateHeader.deserialize]
  exact Cursor.advance_advance c 12 _

theorem consumed_bindingAck (c : Cursor) : bindingAck.deserialize.consumed c =
    12 + Ipv6MobilityBindingAckHeader.optionsLength (c.octet (c.pos + 1)) := by
  refine Reader.consumed_eq ?_
  rw [deserialize, Ipv6MobilityBindingAckHeader.deserialize]
  exact Cursor.advance_advance c 12 _

/-- A method stays within what is announced exactly for the lengths it is made for. -/
theorem bounded_iff (d : Decoder) (c : Cursor) : d.Bounded c ↔ d.Fits (c.octet (c.pos + 1)) := by
  generalize hlen : c.octet (c.pos + 1) = len
  have hlt := len.toNat_lt
  cases d with
  | bindingUpdate =>
    have hread := consumed_bindingUpdate c
    rw [hlen, Ipv6MobilityBindingUpdateHeader.optionsLength, Nat.shiftLeft_eq] at hread
    constructor
    · intro h
      have hle : _ ≤ (len.toNat + 1) * 8 := hlen ▸ h.announced
      change 1 ≤ len.toNat
      omega
    · intro h
      change 1 ≤ len.toNat at h
      refine ⟨?_, fun ho => absurd rfl ho.1⟩
      change _ ≤ ((c.octet (c.pos + 1)).toNat + 1) * 8
      rw [hlen]
      omega
  | bindingAck =>
    have hread := consumed_bindingAck c
    rw [hlen, Ipv6MobilityBindingAckHeader.optionsLength, Nat.shiftLeft_eq] at hread
    constructor
    · intro h
      have hle : _ ≤ (len.toNat + 1) * 8 := hlen ▸ h.announced
      change 1 ≤ len.toNat
      omega
    · intro h
      change 1 ≤ len.toNat at h
      refine ⟨?_, fun ho => absurd rfl ho.2⟩
      change _ ≤ ((c.octet (c.pos + 1)).toNat + 1) * 8
      rw [hlen]
      omega
  | pad1 =>
    refine iff_of_true ⟨?_, fun _ => ?_⟩ trivial
    all_goals rw [Reader.consumed_eq (n := 1) rfl]
    · exact Nat.le_refl 1
    · rfl
  | padn =>
    rw [bounded_iff_of_size rfl (by decide) fun _ => rfl, hlen]
    exact iff_of_true rfl trivial
  | mobileNodeIdentifier =>
    rw [bounded_iff_of_size rfl (by decide) fun _ => rfl, hlen]
    change 1 + (len - 1).toNat = len.toNat ↔ 1 ≤ len.toNat
    have hone : (1 : UInt8).toNat = 1 := rfl
    rw [UInt8.toNat_sub, hone]
    omega
  | homeNetworkPrefix =>
    rw [bounded_iff_of_size rfl (by decide) fun _ => rfl, hlen]
    exact length_eq_iff 18 len
  | handoffIndicator =>
    rw [bounded_iff_of_size rfl (by decide) fun _ => rfl, hlen]
    exact length_eq_iff 2 len
  | accessTechnologyType =>
    rw [bounded_iff_of_size rfl (by decide) fun _ => rfl, hlen]
    exact length_eq_iff 2 len
  | mobileNodeLinkLayerIdentifier =>
    rw [bounded_iff_of_size rfl (by decide) fun _ => rfl, hlen]
    change 2 + (len - 2).toNat = len.toNat ↔ 2 ≤ len.toNat
    have htwo : (2 : UInt8).toNat = 2 := rfl
    rw [UInt8.toNat_sub, htwo]
    omega
  | linkLocalAddress =>
    rw [bounded_iff_of_size rfl (by decide) fun _ => rfl, hlen]
    exact length_eq_iff 16 len
  | timestamp =>
    rw [bounded_iff_of_size rfl (by decide) fun _ => rfl, hlen]
    exact length_eq_iff 8 len

/-- An identifier option of length zero is read for 256 octets behind its first two. -/
theorem identifier_overrun : ¬ ∀ (d : Decoder) (c : Cursor), d.Bounded c := by
  intro hall
  have h := (hall mobileNodeIdentifier (.ofList [8, 0])).announced
  exact absurd h (by decide +kernel)

end Decoder

end Ns3.Pmip6.Wire
