import Ns3.Pmip6.OptionHeaders

/-!
# The codec of an option

An option header as its constructor and setters make it, of any class: the constructor sets the type and,
where the length is fixed, the length; `SetNodeIdentifier` and `SetLinkLayerIdentifier` set the
length to that of the identifier and a constant, in 8 bits. An identifier has up to 255 octets.

* `codec_of_fits` — a header whose length fits its octet comes back as it is.
* `size_ne_of_not_fits` — one whose length does not fit writes 256 octets more than it reserves.
* `codec_iff` — so an option survives exactly if the length of its identifier leaves room for the constant;
  `codec_fails` is the longest identifier of a mobile node.
-/

namespace Ns3.Pmip6.Wire

open Lib Buffer

/-- A header of some class. It writes at least the octets that its length octet says. -/
structure AnyHeader : Type 1 where
  {β : Type}
  K : OptionClass β
  header : OptionHeader β
  len_le : header.len.toNat ≤ (K.write header).length

/-- An option as it is made: with the constructor of its class, and its setters. -/
inductive MadeOption where
  /-- `Ipv6MobilityOptionMobileNodeIdentifierHeader`. -/
  | mobileNodeIdentifier (subtype : UInt8) (id : Identifier)
  /-- `Ipv6MobilityOptionHomeNetworkPrefixHeader`. -/
  | homeNetworkPrefix (reserved plen : UInt8) (hnp : Ipv6Address)
  /-- `Ipv6MobilityOptionHandoffIndicatorHeader`. -/
  | handoffIndicator (reserved hi : UInt8)
  /-- `Ipv6MobilityOptionAccessTechnologyTypeHeader`. -/
  | accessTechnologyType (reserved att : UInt8)
  /-- `Ipv6MobilityOptionMobileNodeLinkLayerIdentifierHeader`. -/
  | mobileNodeLinkLayerIdentifier (reserved : UInt16) (llid : Identifier)
  /-- `Ipv6MobilityOptionLinkLocalAddressHeader`. -/
  | linkLocalAddress (lla : Ipv6Address)
  /-- `Ipv6MobilityOptionTimestampHeader`. -/
  | timestamp (t : ℤ)

namespace MadeOption

theorem len_mobileNodeIdentifier_le (subtype : UInt8) (id : Identifier) :
    (UInt8.ofNat id.octets.length + 1).toNat ≤
      (Wire.mobileNodeIdentifier.write ⟨8, UInt8.ofNat id.octets.length + 1, ⟨subtype, id⟩⟩).length :=
  Nat.le_of_add_le_add_right (Ipv6MobilityOptionHeader.mobileNodeIdentifier subtype id).serializedSize_le

theorem len_homeNetworkPrefix_le (reserved plen : UInt8) (hnp : Ipv6Address) :
    (18 : UInt8).toNat ≤ (Wire.homeNetworkPrefix.write ⟨22, 18, ⟨reserved, plen, hnp⟩⟩).length := by
  simp [Wire.homeNetworkPrefix]

theorem len_indication_le (type reserved value : UInt8) :
    (2 : UInt8).toNat ≤ (indication.write ⟨type, 2, ⟨reserved, value⟩⟩).length := Nat.le_refl 2

theorem len_mobileNodeLinkLayerIdentifier_le (reserved : UInt16) (llid : Identifier) :
    (2 + UInt8.ofNat llid.octets.length).toNat ≤ (Wire.mobileNodeLinkLayerIdentifier.write
      ⟨25, 2 + UInt8.ofNat llid.octets.length, ⟨reserved, llid⟩⟩).length :=
  Nat.le_of_add_le_add_right (Ipv6MobilityOptionHeader.mobileNodeLinkLayerIdentifier llid).serializedSize_le

theorem len_linkLocalAddress_le (lla : Ipv6Address) :
    (16 : UInt8).toNat ≤ (Wire.linkLocalAddress.write ⟨26, 16, lla⟩).length := by
  simp [Wire.linkLocalAddress]

theorem len_timestamp_le (t : ℤ) : (8 : UInt8).toNat ≤ (Wire.timestamp.write ⟨27, 8, t⟩).length := by
  simp [Wire.timestamp]

/-- The header of an option. -/
def header : MadeOption → AnyHeader
  | mobileNodeIdentifier subtype id =>
    { K := Wire.mobileNodeIdentifier
      header := ⟨8, UInt8.ofNat id.octets.length + 1, ⟨subtype, id⟩⟩
      len_le := len_mobileNodeIdentifier_le subtype id }
  | homeNetworkPrefix reserved plen hnp =>
    { K := Wire.homeNetworkPrefix
      header := ⟨22, 18, ⟨reserved, plen, hnp⟩⟩
      len_le := len_homeNetworkPrefix_le reserved plen hnp }
  | handoffIndicator reserved hi =>
    { K := Wire.handoffIndicator
      header := ⟨23, 2, ⟨reserved, hi⟩⟩
      len_le := len_indication_le 23 reserved hi }
  | accessTechnologyType reserved att =>
    { K := Wire.accessTechnologyType
      header := ⟨24, 2, ⟨reserved, att⟩⟩
      len_le := len_indication_le 24 reserved att }
  | mobileNodeLinkLayerIdentifier reserved llid =>
    { K := Wire.mobileNodeLinkLayerIdentifier
      header := ⟨25, 2 + UInt8.ofNat llid.octets.length, ⟨reserved, llid⟩⟩
      len_le := len_mobileNodeLinkLayerIdentifier_le reserved llid }
  | linkLocalAddress lla =>
    { K := Wire.linkLocalAddress
      header := ⟨26, 16, lla⟩
      len_le := len_linkLocalAddress_le lla }
  | timestamp t =>
    { K := Wire.timestamp
      header := ⟨27, 8, t⟩
      len_le := len_timestamp_le t }

/-- A time stamp is a time as `MicroSeconds (t.GetMicroSeconds ())` makes it. -/
def MicroSecond : MadeOption → Prop
  | timestamp t => Time.Representable t ∧ Time.cutToMicroSeconds t = t
  | _ => True

instance (option : MadeOption) : Decidable option.MicroSecond := by
  unfold MicroSecond
  split <;> infer_instance

/-- The identifier of an option leaves room for what its length octet counts besides. -/
def Fits : MadeOption → Prop
  | mobileNodeIdentifier _ id => id.octets.length ≤ 254
  | mobileNodeLinkLayerIdentifier _ llid => llid.octets.length ≤ 253
  | _ => True

instance (option : MadeOption) : Decidable option.Fits := by
  unfold Fits
  split <;> infer_instance

/-- Writing an option takes the octets it says, and reading them, which returns the size of the header that was
read, gives the same header. -/
structure RoundTrips (x : AnyHeader) : Prop where
  /-- `GetSerializedSize` octets are written. -/
  size : (x.K.serialize x.header).length = x.header.getSerializedSize
  /-- They are read as the header. -/
  read : x.K.deserialize.Reads (x.K.serialize x.header) x.header

/-- A header whose length octet is right is read as it was, if its fields are. -/
theorem roundTrips_of_reads {x : AnyHeader} (hlen : (x.K.write x.header).length = x.header.len.toNat)
    (hread : (x.K.read x.header.len).Reads (x.K.write x.header) x.header.fields) : RoundTrips x := by
  constructor
  · rw [OptionClass.serialize, List.length_cons, List.length_cons, hlen, OptionHeader.getSerializedSize]
  · exact x.K.reads_deserialize hread

/-! ### The classes -/

/-- The length octet of an option with an identifier of `n` octets, when `k` are added to it. -/
theorem toNat_length {n k : ℕ} (h : n + k ≤ 255) : (UInt8.ofNat n + UInt8.ofNat k).toNat = n + k := by
  rw [← UInt8.ofNat_add, UInt8.toNat_ofNat']
  omega

theorem reads_indication (reserved value : UInt8) (len : UInt8) :
    (indication.read len).Reads [reserved, value] ⟨reserved, value⟩ := by
  have hread : (indication.read len).Reads ([reserved] ++ ([value] ++ [])) ⟨reserved, value⟩ :=
    (Iterator.reads_readU8 reserved).bind ((Iterator.reads_readU8 value).bind (.pure _))
  exact hread

variable {option : MadeOption}

/-- An option whose identifier fits comes back as it was. -/
theorem codec_of_fits (hfits : option.Fits) (hmicro : option.MicroSecond) : RoundTrips option.header := by
  cases option with
  | mobileNodeIdentifier subtype id =>
    have hle : id.octets.length ≤ 254 := hfits
    have hlen : (UInt8.ofNat id.octets.length + 1).toNat = id.octets.length + 1 :=
      toNat_length (k := 1) (by omega)
    have hid : id.octets.length = (UInt8.ofNat id.octets.length + 1 - 1).toNat := by
      rw [UInt8.add_sub_cancel, UInt8.toNat_ofNat', Nat.mod_eq_of_lt (by omega)]
    have hread : (Wire.mobileNodeIdentifier.read (UInt8.ofNat id.octets.length + 1)).Reads
        ([subtype] ++ (id.octets ++ [])) ⟨subtype, id⟩ :=
      (Iterator.reads_readU8 subtype).bind ((Identifier.reads_identifier hid).bind (.pure _))
    rw [List.append_nil] at hread
    exact roundTrips_of_reads hlen.symm hread
  | homeNetworkPrefix reserved plen hnp =>
    have hread : (Wire.homeNetworkPrefix.read 18).Reads ([reserved] ++ ([plen] ++ (hnp.serialize ++ [])))
        ⟨reserved, plen, hnp⟩ :=
      (Iterator.reads_readU8 reserved).bind ((Iterator.reads_readU8 plen).bind
        ((Ipv6Address.reads_address hnp).bind (.pure _)))
    rw [List.append_nil] at hread
    exact roundTrips_of_reads (by simp [header, Wire.homeNetworkPrefix]) hread
  | handoffIndicator reserved hi => exact roundTrips_of_reads rfl (reads_indication reserved hi 2)
  | accessTechnologyType reserved att => exact roundTrips_of_reads rfl (reads_indication reserved att 2)
  | mobileNodeLinkLayerIdentifier reserved llid =>
    have hle : llid.octets.length ≤ 253 := hfits
    have hlen : (2 + UInt8.ofNat llid.octets.length).toNat = 2 + llid.octets.length := by
      rw [UInt8.add_comm, Nat.add_comm]
      exact toNat_length (k := 2) (by omega)
    have hid : llid.octets.length = (2 + UInt8.ofNat llid.octets.length - 2).toNat := by
      rw [UInt8.add_comm, UInt8.add_sub_cancel, UInt8.toNat_ofNat', Nat.mod_eq_of_lt (by omega)]
    have hread : (Wire.mobileNodeLinkLayerIdentifier.read (2 + UInt8.ofNat llid.octets.length)).Reads
        (Iterator.writeHtonU16 reserved ++ (llid.octets ++ [])) ⟨reserved, llid⟩ :=
      (Iterator.reads_readNtohU16 reserved).bind ((Identifier.reads_identifier hid).bind (.pure _))
    rw [List.append_nil] at hread
    exact roundTrips_of_reads (by simp [header, Wire.mobileNodeLinkLayerIdentifier, hlen]) hread
  | linkLocalAddress lla =>
    exact roundTrips_of_reads (by simp [header, Wire.linkLocalAddress]) (Ipv6Address.reads_address lla)
  | timestamp t =>
    have hread := (Iterator.reads_readNtohU64 (Time.toMicroSeconds t)).map Time.ofMicroSeconds
    rw [Time.ofMicroSeconds_toMicroSeconds t, hmicro.2] at hread
    exact roundTrips_of_reads (by simp [header, Wire.timestamp]) hread

theorem size_of_fits (h : option.Fits) :
    (option.header.K.serialize option.header.header).length = option.header.header.getSerializedSize := by
  cases option with
  | timestamp t => simp [header, OptionClass.serialize, Wire.timestamp, OptionHeader.getSerializedSize]
  | _ => exact (codec_of_fits h trivial).size

/-- An option whose identifier does not fit writes 256 octets more than it reserves. -/
theorem size_ne_of_not_fits (h : ¬ option.Fits) :
    (option.header.K.serialize option.header.header).length =
      option.header.header.getSerializedSize + 256 := by
  cases option with
  | mobileNodeIdentifier subtype id =>
    have hlt : 254 < id.octets.length := Nat.lt_of_not_le h
    have hle := id.length_le
    have hfull : id.octets.length = 255 := by omega
    have hlen : (UInt8.ofNat id.octets.length + 1).toNat = 0 := by
      rw [hfull]
      rfl
    show (8 :: _ :: subtype :: id.octets).length = (UInt8.ofNat id.octets.length + 1).toNat + 2 + 256
    rw [hlen, List.length_cons, List.length_cons, List.length_cons, hfull]
  | mobileNodeLinkLayerIdentifier reserved llid =>
    have hlt : 253 < llid.octets.length := Nat.lt_of_not_le h
    have hle := llid.length_le
    have hlen : (2 + UInt8.ofNat llid.octets.length).toNat + 256 = 2 + llid.octets.length := by
      rw [UInt8.toNat_add, UInt8.toNat_ofNat']
      have htwo : (2 : UInt8).toNat = 2 := rfl
      omega
    show (25 :: _ :: (Iterator.writeHtonU16 reserved ++ llid.octets)).length =
      (2 + UInt8.ofNat llid.octets.length).toNat + 2 + 256
    rw [List.length_cons, List.length_cons, List.length_append, Iterator.length_writeHtonU16]
    omega
  | _ => exact absurd trivial h

/-- An option with any identifiers, prefix, indicator, access technology, address and whole number of
microseconds is written in the octets it says, and comes back from them, if and only if its identifier leaves
room for the subtype or the reserved octets. -/
theorem codec_iff {option : MadeOption} (hmicro : option.MicroSecond) :
    RoundTrips option.header ↔ option.Fits := by
  constructor
  · intro h
    by_contra hno
    have hsize := h.size
    rw [size_ne_of_not_fits hno] at hsize
    omega
  · exact fun hfits => codec_of_fits hfits hmicro

theorem codec_timestamp :
    (MadeOption.timestamp (Time.seconds 10)).MicroSecond ∧
      RoundTrips (MadeOption.timestamp (Time.seconds 10)).header := by
  have hmicro : (MadeOption.timestamp (Time.seconds 10)).MicroSecond := by decide
  exact ⟨hmicro, (codec_iff hmicro).mpr trivial⟩

/-- An identifier of 255 octets. -/
def longest : Identifier := ⟨List.replicate 255 0x61, Nat.le_of_eq List.length_replicate⟩

/-- With its subtype it takes 256 octets, of which the length octet says nothing. -/
theorem codec_fails : ¬ ∀ option : MadeOption, option.MicroSecond → RoundTrips option.header := by
  intro h
  have hsize := (h (.mobileNodeIdentifier 1 longest) trivial).size
  have hno : ¬ Fits (.mobileNodeIdentifier 1 longest) := by
    show ¬ (List.replicate 255 (0x61 : UInt8)).length ≤ 254
    rw [List.length_replicate]
    decide
  rw [size_ne_of_not_fits hno] at hsize
  omega

end MadeOption

end Ns3.Pmip6.Wire
