import Ns3.Pmip6.Mag
import Ns3.Pmip6.MobilityHeaders
import Ns3.Pmip6.OptionWalk

/-!
# Options from end to end

A proxy binding update, as the octets that `BuildPbu` makes of it, is read by `HandlePbu`. The
options are padded when they are added, and the walk has to find them again: `Handled` says of an
option what its octets do to the bundle of the receiver, and `Walkable` of several in a row.

* `handlePbu_serialize` — a message of at most 264 octets gives the receiver the bundle of its
  options.
* `transport` — the same for what `BuildPbu` makes of an entry.
-/

namespace Ns3.Pmip6

open Lib Buffer

namespace Wire

/-! ### Options in a row -/

/-- Where the octets of the option lie, its handler returns their number, and does this to the bundle. -/
structure Handled (option : Ipv6MobilityOptionHeader)
    (effect : Ipv6MobilityOptionBundle → Ipv6MobilityOptionBundle) : Prop where
  /-- It reserves what it writes. -/
  size : option.serializedSize = option.serialize.length
  process : ∃ type rest process, option.serialize = type :: rest ∧ getOption type = some process ∧
    ∀ (c : Cursor) (bundle : Ipv6MobilityOptionBundle), c.At option.serialize →
      process c bundle = (UInt8.ofNat option.serialize.length, effect bundle)

/-- Options in a row, and what they do to the bundle. -/
inductive Walkable : List Ipv6MobilityOptionHeader →
    (Ipv6MobilityOptionBundle → Ipv6MobilityOptionBundle) → Prop where
  | nil : Walkable [] id
  | cons {option : Ipv6MobilityOptionHeader} {options : List Ipv6MobilityOptionHeader}
      {effect effect' : Ipv6MobilityOptionBundle → Ipv6MobilityOptionBundle} :
      Handled option effect → Walkable options effect' → Walkable (option :: options) (effect' ∘ effect)

theorem Walkable.append {options options' : List Ipv6MobilityOptionHeader}
    {effect effect' : Ipv6MobilityOptionBundle → Ipv6MobilityOptionBundle} (h : Walkable options effect)
    (h' : Walkable options' effect') : Walkable (options ++ options') (effect' ∘ effect) := by
  induction h with
  | nil => exact h'
  | cons hoption _ ih =>
    have hcons := Walkable.cons hoption ih
    exact hcons

theorem Handled.walkable {option : Ipv6MobilityOptionHeader}
    {effect : Ipv6MobilityOptionBundle → Ipv6MobilityOptionBundle} (h : Handled option effect) :
    Walkable [option] effect := by
  have hcons := Walkable.cons h .nil
  exact hcons

/-- The octets of options in a row. -/
def octets (options : List Ipv6MobilityOptionHeader) : List UInt8 :=
  options.flatMap Ipv6MobilityOptionHeader.serialize

@[simp] theorem octets_nil : octets [] = [] := rfl

@[simp] theorem octets_cons (option : Ipv6MobilityOptionHeader) (options : List Ipv6MobilityOptionHeader) :
    octets (option :: options) = option.serialize ++ octets options := List.flatMap_cons

@[simp] theorem octets_append (options options' : List Ipv6MobilityOptionHeader) :
    octets (options ++ options') = octets options ++ octets options' := List.flatMap_append

section Walk

variable {m : Memory} {length : UInt8} {w : Walk}

/-- An iteration where an option lies, within the first 256 octets. -/
theorem iterate_of_handled {option : Ipv6MobilityOptionHeader}
    {effect : Ipv6MobilityOptionBundle → Ipv6MobilityOptionBundle} (h : Handled option effect)
    (hlie : option.serialize <+: m.packet.drop (12 + w.processedSize.toNat))
    (hplace : 12 + w.processedSize.toNat < 256) :
    iterate m 12 w = ⟨w.processedSize + UInt8.ofNat option.serialize.length, effect w.bundle⟩ := by
  obtain ⟨type, rest, process, hoctets, hget, hprocess⟩ := h.process
  have hat : ∀ (i : ℕ) (b : UInt8), option.serialize[i]? = some b →
      m.packet[12 + w.processedSize.toNat + i]? = some b := by
    intro i b hb
    obtain ⟨hi, rfl⟩ := List.getElem?_eq_some_iff.mp hb
    rw [← List.getElem?_drop]
    exact List.prefix_iff_getElem?.mp hlie i hi
  have htype : m.packet[(12 : UInt8).toNat + w.processedSize.toNat]? = some type :=
    hat 0 type (by rw [hoctets]; rfl)
  have hpos := pos_removeAtStart (List.getElem?_eq_some_iff.mp htype).1
  have hcursor : (m.removeAtStart (12 + w.processedSize)).At option.serialize := by
    intro i b hb
    have h12 : (12 : UInt8).toNat = 12 := rfl
    rw [hpos, h12, Nat.mod_eq_of_lt hplace]
    change m.packet[12 + w.processedSize.toNat + i]?.getD _ = b
    rw [hat i b hb, Option.getD_some]
  rw [iterate, Memory.data_eq_of_getElem? htype, hget]
  simp only [hprocess _ _ hcursor]

theorem processOptions_of_walkable {options : List Ipv6MobilityOptionHeader}
    {effect : Ipv6MobilityOptionBundle → Ipv6MobilityOptionBundle} (h : Walkable options effect)
    (fuel : ℕ) (hlie : octets options <+: m.packet.drop (12 + w.processedSize.toNat))
    (hplace : 12 + w.processedSize.toNat + (octets options).length < 256)
    (hlen : w.processedSize.toNat + (octets options).length ≤ length.toNat) :
    processOptions m 12 length (fuel + options.length) w =
      processOptions m 12 length fuel
        ⟨w.processedSize + UInt8.ofNat (octets options).length, effect w.bundle⟩ := by
  induction h generalizing w with
  | nil => simp
  | @cons option options effect effect' hoption hoptions ih =>
    rw [octets_cons] at hlie hplace hlen
    rw [List.length_append] at hplace hlen
    have hpos : 0 < option.serialize.length := by
      obtain ⟨type, rest, _, hoctets, -, -⟩ := hoption.process
      rw [hoctets]
      exact Nat.succ_pos _
    obtain ⟨tail, htail⟩ := hlie
    rw [List.append_assoc] at htail
    have hstep := iterate_of_handled (w := w) hoption ⟨_, htail⟩ (by omega)
    have hlt : w.processedSize < length := UInt8.lt_iff_toNat_lt.mpr (by omega)
    have hnext : (w.processedSize + UInt8.ofNat option.serialize.length).toNat =
        w.processedSize.toNat + option.serialize.length := by
      rw [UInt8.toNat_add, UInt8.toNat_ofNat']
      omega
    have hrest : octets options <+: m.packet.drop
        (12 + (w.processedSize + UInt8.ofNat option.serialize.length).toNat) := by
      rw [hnext, ← Nat.add_assoc, ← List.drop_drop, ← htail, List.drop_left]
      exact ⟨tail, rfl⟩
    rw [List.length_cons, ← Nat.add_assoc, processOptions, if_pos hlt, hstep,
      ih (w := ⟨_, effect w.bundle⟩) hrest (by rw [hnext]; omega) (by rw [hnext]; omega),
      octets_cons, List.length_append, UInt8.ofNat_add, UInt8.add_assoc]
    rfl

end Walk

/-! ### The options of the protocol -/

theorem handled_of_reads {β : Type} {K : OptionClass β} {h : OptionHeader β} {b : β}
    {f : β → Ipv6MobilityOptionBundle → Ipv6MobilityOptionBundle}
    (hget : getOption h.type = some (K.process f)) (hreads : (K.read h.len).Reads (K.write h) b)
    (hlen : (K.write h).length = h.len.toNat) : Handled (K.header h (Nat.le_of_eq hlen.symm)) (f b) := by
  have hsize : (K.serialize h).length = h.getSerializedSize := by
    rw [OptionClass.serialize, List.length_cons, List.length_cons, hlen, OptionHeader.getSerializedSize]
  refine ⟨hsize.symm, h.type, h.len :: K.write h, K.process f, rfl, hget, fun c bundle hc => ?_⟩
  change (UInt8.ofNat (K.deserialize c).1.getSerializedSize, f (K.deserialize c).1.fields bundle) =
    (UInt8.ofNat (K.serialize h).length, f b bundle)
  rw [K.reads_deserialize hreads c hc, hsize]
  rfl

theorem handled_pad1 : Handled .pad1 id :=
  ⟨rfl, 0, [], _, rfl, rfl, fun _ _ _ => rfl⟩

theorem handled_padn (length : UInt8) : Handled (.padn length) id := by
  have hread := (Iterator.reads_read (List.length_replicate (n := (length - 2).toNat) (a := (0 : UInt8)))).bind
    (f := fun _ => pure ()) (.pure ())
  rw [List.append_nil] at hread
  exact handled_of_reads (K := padn) (h := ⟨1, length - 2, ()⟩) (f := fun _ bundle => bundle) rfl hread
    List.length_replicate

theorem walkable_padding (pad : ℕ) : Walkable (MobilityOptionField.padding pad) id := by
  match pad with
  | 0 => exact .nil
  | 1 => exact handled_pad1.walkable
  | pad + 2 => exact (handled_padn _).walkable

theorem reads_indication (x : UInt8) :
    (indication.read 2).Reads [0, x] (⟨0, x⟩ : Indication) := by
  have hread : (indication.read 2).Reads ([0] ++ ([x] ++ [])) ⟨0, x⟩ :=
    (Iterator.reads_readU8 0).bind ((Iterator.reads_readU8 x).bind (.pure _))
  exact hread

namespace MobilityOptionField

variable {effect : Ipv6MobilityOptionBundle → Ipv6MobilityOptionBundle}

theorem optionData_append {o : ℕ} (f : MobilityOptionField o) {option : Ipv6MobilityOptionHeader}
    (h : Handled option effect) : (f.append option).optionData = f.optionData ++ option.serialize := by
  rw [append, h.size, List.take_length]

theorem optionData_foldl_append {o : ℕ} (f : MobilityOptionField o) {options : List Ipv6MobilityOptionHeader}
    (h : Walkable options effect) : (options.foldl append f).optionData = f.optionData ++ octets options := by
  induction h generalizing f with
  | nil => exact (List.append_nil _).symm
  | cons hoption _ ih =>
    rw [List.foldl_cons, ih, optionData_append f hoption, octets_cons, List.append_assoc]

theorem optionData_addOption {o : ℕ} (f : MobilityOptionField o) {option : Ipv6MobilityOptionHeader}
    (h : Handled option effect) :
    (f.addOption option).optionData =
      f.optionData ++ octets (padding (f.calculatePad option.alignment)) ++ option.serialize := by
  rw [addOption, optionData_append _ h, optionData_foldl_append f (walkable_padding _)]

theorem calculatePad_align (f : MobilityOptionField 12) (offset : UInt8) :
    (12 + f.optionData.length + f.calculatePad ⟨8, offset⟩) % 8 = offset.toNat % 8 := by
  have h8 : (8 : UInt8).toNat = 8 := rfl
  change (12 + f.optionData.length + (offset.toNat + 2 ^ 32 - (f.optionData.length + 12) % 2 ^ 32) %
    2 ^ 32 % (8 : UInt8).toNat) % 8 = offset.toNat % 8
  rw [h8]
  omega

end MobilityOptionField

end Wire

/-- The header of an option. -/
def MobilityOption.header : MobilityOption → Wire.Ipv6MobilityOptionHeader
  | mobileNodeIdentifier subtype nodeIdentifier => .mobileNodeIdentifier subtype nodeIdentifier
  | homeNetworkPrefix hnp prefixLength => .homeNetworkPrefix hnp prefixLength
  | handoffIndicator hi => .handoffIndicator hi
  | accessTechnologyType att => .accessTechnologyType att
  | mobileNodeLinkLayerIdentifier linkLayerIdentifier => .mobileNodeLinkLayerIdentifier linkLayerIdentifier
  | linkLocalAddress lla => .linkLocalAddress lla
  | timestamp t => .timestamp t

/-- The length of the option fits into its length octet, and a time into its 64 bits. -/
def MobilityOption.Fits : MobilityOption → Prop
  | mobileNodeIdentifier _ nodeIdentifier => nodeIdentifier.octets.length ≤ 254
  | mobileNodeLinkLayerIdentifier linkLayerIdentifier => linkLayerIdentifier.octets.length ≤ 253
  | timestamp t => Time.Representable t
  | _ => True

/-- What the octets of an option do to the bundle is what the option does. -/
theorem MobilityOption.handled {option : MobilityOption} (h : option.Fits) :
    Wire.Handled option.header fun bundle => process bundle option := by
  cases option with
  | mobileNodeIdentifier subtype id =>
    have hone : (1 : UInt8).toNat = 1 := rfl
    have hle : id.octets.length ≤ 254 := h
    have hlen : (UInt8.ofNat id.octets.length + 1).toNat = id.octets.length + 1 := by
      rw [UInt8.toNat_add, UInt8.toNat_ofNat', hone]
      omega
    have hid : id.octets.length = (UInt8.ofNat id.octets.length + 1 - 1).toNat := by
      rw [UInt8.toNat_sub, hlen, hone]
      omega
    have hread : (Wire.mobileNodeIdentifier.read (UInt8.ofNat id.octets.length + 1)).Reads
        ([subtype] ++ (id.octets ++ [])) ⟨subtype, id⟩ :=
      (Iterator.reads_readU8 subtype).bind ((Identifier.reads_identifier hid).bind (.pure _))
    rw [List.append_nil] at hread
    exact Wire.handled_of_reads (K := Wire.mobileNodeIdentifier)
      (h := ⟨8, UInt8.ofNat id.octets.length + 1, ⟨subtype, id⟩⟩) (f := fun nai bundle =>
        if nai.subtype = 1 then { bundle with mnIdentifier := nai.nodeIdentifier } else bundle)
      rfl hread hlen.symm
  | homeNetworkPrefix hnp prefixLength =>
    have hread : (Wire.homeNetworkPrefix.read 18).Reads ([0] ++ ([prefixLength] ++ (hnp.serialize ++ [])))
        ⟨0, prefixLength, hnp⟩ :=
      (Iterator.reads_readU8 0).bind ((Iterator.reads_readU8 prefixLength).bind
        ((Ipv6Address.reads_address hnp).bind (.pure _)))
    rw [List.append_nil] at hread
    exact Wire.handled_of_reads (K := Wire.homeNetworkPrefix) (h := ⟨22, 18, ⟨0, prefixLength, hnp⟩⟩)
      (f := fun hnp bundle => { bundle with homeNetworkPrefixes := bundle.homeNetworkPrefixes ++ [hnp.pfx] })
      rfl hread (by simp [Wire.homeNetworkPrefix])
  | handoffIndicator hi =>
    exact Wire.handled_of_reads (K := Wire.handoffIndicator) (h := ⟨23, 2, ⟨0, hi⟩⟩)
      (f := fun hi bundle => { bundle with handoffIndicator := hi.value }) rfl (Wire.reads_indication hi) rfl
  | accessTechnologyType att =>
    exact Wire.handled_of_reads (K := Wire.accessTechnologyType) (h := ⟨24, 2, ⟨0, att⟩⟩)
      (f := fun att bundle => { bundle with accessTechnologyType := att.value }) rfl
      (Wire.reads_indication att) rfl
  | mobileNodeLinkLayerIdentifier llid =>
    have htwo : (2 : UInt8).toNat = 2 := rfl
    have hle : llid.octets.length ≤ 253 := h
    have hlen : (2 + UInt8.ofNat llid.octets.length).toNat = 2 + llid.octets.length := by
      rw [UInt8.toNat_add, UInt8.toNat_ofNat', htwo]
      omega
    have hid : llid.octets.length = (2 + UInt8.ofNat llid.octets.length - 2).toNat := by
      rw [UInt8.toNat_sub, hlen, htwo]
      omega
    have hread : (Wire.mobileNodeLinkLayerIdentifier.read (2 + UInt8.ofNat llid.octets.length)).Reads
        (Iterator.writeHtonU16 0 ++ (llid.octets ++ [])) ⟨0, llid⟩ :=
      (Iterator.reads_readNtohU16 0).bind ((Identifier.reads_identifier hid).bind (.pure _))
    rw [List.append_nil] at hread
    exact Wire.handled_of_reads (K := Wire.mobileNodeLinkLayerIdentifier)
      (h := ⟨25, 2 + UInt8.ofNat llid.octets.length, ⟨0, llid⟩⟩)
      (f := fun mnllid bundle => { bundle with mnLinkIdentifier := mnllid.linkLayerIdentifier })
      rfl hread (by simp [Wire.mobileNodeLinkLayerIdentifier, hlen])
  | linkLocalAddress lla =>
    exact Wire.handled_of_reads (K := Wire.linkLocalAddress) (h := ⟨26, 16, lla⟩)
      (f := fun lla bundle => { bundle with magLinkAddress := lla }) rfl (Ipv6Address.reads_address lla)
      (by simp [Wire.linkLocalAddress])
  | timestamp t =>
    have hread := (Iterator.reads_readNtohU64 (Time.toMicroSeconds t)).map Time.ofMicroSeconds
    rw [Time.ofMicroSeconds_toMicroSeconds t] at hread
    exact Wire.handled_of_reads (K := Wire.timestamp) (h := ⟨27, 8, t⟩)
      (f := fun t bundle => { bundle with timestamp := t }) rfl hread (by simp [Wire.timestamp])

namespace Wire

/-- The octets of options that fit do to the bundle what the options do. -/
theorem exists_walkable_addOptions {o : ℕ} (f : MobilityOptionField o) {options : List MobilityOption}
    (h : ∀ option ∈ options, option.Fits) :
    ∃ row, ((options.map MobilityOption.header).foldl MobilityOptionField.addOption f).optionData =
        f.optionData ++ octets row ∧
      Walkable row fun bundle => options.foldl MobilityOption.process bundle := by
  induction options generalizing f with
  | nil => exact ⟨[], (List.append_nil _).symm, .nil⟩
  | cons option options ih =>
    have hoption := MobilityOption.handled (h option List.mem_cons_self)
    obtain ⟨row, hdata, hrow⟩ := ih (f.addOption option.header) fun x hx => h x (List.mem_cons_of_mem _ hx)
    refine ⟨MobilityOptionField.padding (f.calculatePad option.header.alignment) ++ option.header :: row, ?_,
      (walkable_padding _).append (.cons hoption hrow)⟩
    rw [List.map_cons, List.foldl_cons, hdata, f.optionData_addOption hoption]
    simp

/-- What `HandlePbu` takes out of the packet; `none` while `ProcessOptions` has not ended. The length of
the options is put into 8 bits. -/
def handlePbuOptions (m : Memory) (fuel : ℕ) : Option Ipv6MobilityOptionBundle :=
  let pbu := (Ipv6MobilityBindingUpdateHeader.deserialize (m.removeAtStart 0)).1
  let length := UInt8.ofNat (Ipv6MobilityBindingUpdateHeader.optionsLength pbu.headerLen)
  (processOptions m 12 length fuel {}).map Walk.bundle

end Wire

/-- The header a binding update is sent as. -/
def Ipv6MobilityBindingUpdateHeader.header (pbu : Ipv6MobilityBindingUpdateHeader) :
    Wire.Ipv6MobilityBindingUpdateHeader :=
  Wire.Ipv6MobilityBindingUpdateHeader.addOptions
    { sequence := pbu.sequence
      flags := fun
        | .a => pbu.flagA
        | .h => pbu.flagH
        | .l => pbu.flagL
        | .p => pbu.flagP
        | _ => false
      lifetime := pbu.lifetime } (pbu.options.map MobilityOption.header)

namespace Wire

/-- A message whose last option is a time stamp ends with the octets of that. -/
theorem serialize_of_timestamp {pbu : Pmip6.Ipv6MobilityBindingUpdateHeader} {init : List MobilityOption}
    {t : ℤ} (hoptions : pbu.options = init ++ [.timestamp t]) (hfits : ∀ option ∈ pbu.options, option.Fits) :
    ∃ row, pbu.header.toMobilityOptionField.serialize =
        octets row ++ (MobilityOption.timestamp t).header.serialize ∧
      Walkable row fun bundle => init.foldl MobilityOption.process bundle := by
  rw [hoptions] at hfits
  obtain ⟨row, hdata, hrow⟩ := exists_walkable_addOptions (o := 12) {} fun option ho =>
    hfits option (List.mem_append_left _ ho)
  have htime := MobilityOption.handled (hfits (.timestamp t) (List.mem_append_right _ List.mem_cons_self))
  let f := (init.map MobilityOption.header).foldl MobilityOptionField.addOption
    ({} : MobilityOptionField 12)
  have hfield : pbu.header.toMobilityOptionField = f.addOption (MobilityOption.timestamp t).header := by
    change (pbu.options.map MobilityOption.header).foldl MobilityOptionField.addOption {} = _
    rw [hoptions, List.map_append, List.foldl_append]
    rfl
  have hlast := f.optionData_addOption htime
  -- the octets end where the next multiple of eight begins
  have hpad : (f.addOption (MobilityOption.timestamp t).header).calculatePad ⟨8, 0⟩ = 0 := by
    have hbefore := f.calculatePad_align 6
    have hafter := (f.addOption (MobilityOption.timestamp t).header).calculatePad_align 0
    have hlt := (f.addOption (MobilityOption.timestamp t).header).calculatePad_eight_lt 0
    have hpadding : (octets (MobilityOptionField.padding (f.calculatePad ⟨8, 6⟩))).length =
        f.calculatePad ⟨8, 6⟩ :=
      MobilityOptionField.length_padding (Nat.lt_trans (f.calculatePad_eight_lt 6) (by decide))
    have hten : (MobilityOption.timestamp t).header.serialize.length = 10 := by
      simp [MobilityOption.header, Ipv6MobilityOptionHeader.timestamp, OptionClass.header,
        OptionClass.serialize, timestamp]
    have h6 : (6 : UInt8).toNat = 6 := rfl
    have h0 : (0 : UInt8).toNat = 0 := rfl
    rw [hlast, List.length_append, List.length_append, hten] at hafter
    change (12 + (f.optionData.length + (octets (MobilityOptionField.padding
      (f.calculatePad ⟨8, 6⟩))).length + 10) + _) % 8 = _ at hafter
    rw [hpadding] at hafter
    omega
  refine ⟨row ++ MobilityOptionField.padding (f.calculatePad (MobilityOption.timestamp t).header.alignment),
    ?_, hrow.append (walkable_padding _)⟩
  rw [hfield, MobilityOptionField.serialize, hpad, hlast, hdata, octets_append]
  exact List.append_nil _

/-- The receiver of a message of at most 264 octets whose last option is a time stamp gets the bundle of
its options. -/
theorem handlePbuOptions_serialize {pbu : Pmip6.Ipv6MobilityBindingUpdateHeader}
    {init : List MobilityOption} {t : ℤ} (hoptions : pbu.options = init ++ [.timestamp t])
    (hfits : ∀ option ∈ pbu.options, option.Fits) (hs : pbu.header.getSerializedSize ≤ 264)
    {m : Memory} (hm : m.packet = pbu.header.serialize) :
    ∃ fuel, handlePbuOptions m fuel = some pbu.bundle := by
  obtain ⟨row, hserialize, hrow⟩ := serialize_of_timestamp hoptions hfits
  have htime := MobilityOption.handled (hfits (.timestamp t) (by
    rw [hoptions]
    exact List.mem_append_right _ List.mem_cons_self))
  have hten : (MobilityOption.timestamp t).header.serialize.length = 10 := by
    simp [MobilityOption.header, Ipv6MobilityOptionHeader.timestamp, OptionClass.header,
      OptionClass.serialize, timestamp]
  have hsize : pbu.header.getSerializedSize = 12 + ((octets row).length + 10) := by
    rw [Ipv6MobilityBindingUpdateHeader.getSerializedSize, ← MobilityOptionField.length_serialize,
      hserialize, List.length_append, hten]
  -- the header is read, and says how long the options are
  have hat : (m.removeAtStart 0).At pbu.header.serialize := by
    intro i b hb
    change m.packet[min 0 m.packet.length + i]?.getD _ = b
    rw [Nat.zero_min, Nat.zero_add, hm, hb, Option.getD_some]
  have hread := pbu.header.reads_deserialize (Nat.le_trans hs (by decide)) _ hat
  have hlength : Ipv6MobilityBindingUpdateHeader.optionsLength pbu.header.decoded.headerLen =
      (octets row).length + 10 := by
    refine (pbu.header.optionsLength_serialize (Nat.le_trans hs (by decide))).trans ?_
    rw [← MobilityOptionField.length_serialize, hserialize, List.length_append, hten]
  -- the options lie behind the first twelve octets
  have hlie : m.packet.drop 12 = octets row ++ (MobilityOption.timestamp t).header.serialize := by
    rw [hm, ← hserialize, Ipv6MobilityBindingUpdateHeader.serialize]
    exact List.drop_left' (by simp)
  have hn : (UInt8.ofNat (octets row).length).toNat = (octets row).length := by
    rw [UInt8.toNat_ofNat', Nat.mod_eq_of_lt (by omega)]
  have hn10 : (UInt8.ofNat ((octets row).length + 10)).toNat = (octets row).length + 10 := by
    rw [UInt8.toNat_ofNat', Nat.mod_eq_of_lt (by omega)]
  have hbefore : processOptions m 12 (UInt8.ofNat ((octets row).length + 10)) (2 + row.length) {} =
      processOptions m 12 (UInt8.ofNat ((octets row).length + 10)) 2
        ⟨0 + UInt8.ofNat (octets row).length, init.foldl MobilityOption.process {}⟩ :=
    processOptions_of_walkable hrow 2 ⟨_, hlie.symm⟩ (show 12 + 0 + _ < 256 by omega)
      (show 0 + _ ≤ _ by omega)
  have hlast : m.packet.drop (12 + (UInt8.ofNat (octets row).length).toNat) =
      (MobilityOption.timestamp t).header.serialize := by
    rw [hn, ← List.drop_drop, hlie, List.drop_left]
  have hstep := iterate_of_handled (m := m)
    (w := ⟨UInt8.ofNat (octets row).length, init.foldl MobilityOption.process {}⟩) htime
    (hlast ▸ List.prefix_rfl)
    (show 12 + (UInt8.ofNat (octets row).length).toNat < 256 by omega)
  have hlt : UInt8.ofNat (octets row).length < UInt8.ofNat ((octets row).length + 10) := by
    rw [UInt8.lt_iff_toNat_lt]
    omega
  have hend : ¬ UInt8.ofNat (octets row).length + UInt8.ofNat 10 < UInt8.ofNat ((octets row).length + 10) := by
    rw [← UInt8.ofNat_add]
    exact UInt8.lt_irrefl _
  rw [hten] at hstep
  refine ⟨2 + row.length, ?_⟩
  rw [handlePbuOptions, hread]
  simp only [hlength, hbefore, UInt8.zero_add, processOptions, if_pos hlt, hstep, if_neg hend, Option.map_some]
  rw [Ipv6MobilityBindingUpdateHeader.bundle, hoptions, processOptions_append]
  rfl

theorem processOptions_unique {m : Memory} {offset length : UInt8} {fuel fuel' : ℕ} {w a b : Walk}
    (ha : processOptions m offset length fuel w = some a)
    (hb : processOptions m offset length fuel' w = some b) : a = b := by
  induction fuel generalizing fuel' w with
  | zero => simp [processOptions] at ha
  | succ fuel ih =>
    cases fuel' with
    | zero => simp [processOptions] at hb
    | succ fuel' =>
      rw [processOptions] at ha hb
      split at ha
      · rename_i hlt
        rw [if_pos hlt] at hb
        exact ih ha hb
      · rename_i hge
        rw [if_neg hge] at hb
        exact Option.some.inj (ha.symm.trans hb)

theorem handlePbuOptions_unique {m : Memory} {fuel fuel' : ℕ} {a b : Ipv6MobilityOptionBundle}
    (ha : handlePbuOptions m fuel = some a) (hb : handlePbuOptions m fuel' = some b) : a = b := by
  obtain ⟨w, hw, rfl⟩ := Option.map_eq_some_iff.mp ha
  obtain ⟨w', hw', rfl⟩ := Option.map_eq_some_iff.mp hb
  rw [processOptions_unique hw hw']

end Wire

namespace Mag

open BindingUpdateList (Entry)

/-! ### Entries of the binding update list -/

variable (bule : Entry)

/-- The fields of an entry that an update carries. -/
def carried : Ipv6MobilityOptionBundle where
  mnIdentifier := bule.mnIdentifier
  mnLinkIdentifier := bule.mnLinkIdentifier
  homeNetworkPrefixes := bule.homeNetworkPrefixes
  magLinkAddress := bule.magLinkAddress
  accessTechnologyType := bule.accessTechnologyType
  handoffIndicator := bule.handoffIndicator
  timestamp := bule.lastBindingUpdateTime

/-- The time of the last update is one as `MicroSeconds (t.GetMicroSeconds ())` makes it. -/
def MicroSecondTime : Prop :=
  Time.Representable bule.lastBindingUpdateTime ∧
    Time.cutToMicroSeconds bule.lastBindingUpdateTime = bule.lastBindingUpdateTime
deriving Decidable

/-- The prefixes an update asks for: without any, it asks for one to be assigned. -/
def requestedPrefixes : List Ipv6Address :=
  if 0 < bule.homeNetworkPrefixes.length then bule.homeNetworkPrefixes else [.zero]

theorem bundle_buildPbu {bule : Entry} (h : MicroSecondTime bule) :
    (buildPbu bule).bundle = { carried bule with homeNetworkPrefixes := requestedPrefixes bule } := by
  have hprefixes : (if 0 < bule.homeNetworkPrefixes.length then
      bule.homeNetworkPrefixes.map (MobilityOption.homeNetworkPrefix · 64)
      else [.homeNetworkPrefix .zero 0]).foldl MobilityOption.process
        { mnIdentifier := bule.mnIdentifier } =
      { mnIdentifier := bule.mnIdentifier, homeNetworkPrefixes := requestedPrefixes bule } := by
    rw [requestedPrefixes]
    split
    · exact foldl_process_homeNetworkPrefix 64 _ _
    · rfl
  have hmag : ∀ bundle : Ipv6MobilityOptionBundle, bundle.magLinkAddress = .zero →
      (if bule.magLinkAddress.isAny then [] else
        [MobilityOption.linkLocalAddress bule.magLinkAddress]).foldl MobilityOption.process bundle =
      { bundle with magLinkAddress := bule.magLinkAddress } := by
    intro bundle hzero
    split
    · rename_i hany
      rw [Ipv6Address.isAny_iff.mp hany, ← hzero]
      rfl
    · rfl
  rw [Ipv6MobilityBindingUpdateHeader.bundle, processOptions, buildPbu, List.foldl_append,
    List.foldl_append, List.foldl_append, List.foldl_append]
  have hid : [MobilityOption.mobileNodeIdentifier 1 bule.mnIdentifier].foldl MobilityOption.process {} =
      { mnIdentifier := bule.mnIdentifier } := rfl
  rw [hid, hprefixes]
  simp only [List.foldl_cons, List.foldl_nil, MobilityOption.process, MobilityOption.received]
  rw [hmag _ rfl, h.2, carried]

/-- An entry comes out of its update, with `::` for its prefixes if it has none, as long as the message
is not longer than 264 octets and its identifiers fit into their options. -/
theorem transport {bule : Entry} (h : MicroSecondTime bule) (hid : bule.mnIdentifier.octets.length ≤ 254)
    (hlid : bule.mnLinkIdentifier.octets.length ≤ 253)
    (hs : (buildPbu bule).header.getSerializedSize ≤ 264) {m : Wire.Memory}
    (hm : m.packet = (buildPbu bule).header.serialize) :
    ∃ fuel, Wire.handlePbuOptions m fuel =
      some { carried bule with homeNetworkPrefixes := requestedPrefixes bule } := by
  rw [← bundle_buildPbu h]
  refine Wire.handlePbuOptions_serialize rfl (fun option ho => ?_) hs hm
  simp only [buildPbu, List.mem_append, List.mem_cons, List.not_mem_nil, or_false] at ho
  rcases ho with ((((rfl | ho) | rfl | rfl | rfl) | ho) | rfl)
  · exact hid
  · split at ho
    · obtain ⟨hnp, -, rfl⟩ := List.mem_map.mp ho
      trivial
    · rw [List.mem_singleton.mp ho]
      trivial
  · trivial
  · trivial
  · exact hlid
  · split at ho
    · exact absurd ho List.not_mem_nil
    · rw [List.mem_singleton.mp ho]
      trivial
  · exact h.1

/-- The update of an entry, with zeros behind it. -/
def received : Wire.Memory :=
  ⟨(buildPbu bule).header.serialize, fun _ => 0, fun _ => 0⟩

/-- An entry with an identifier of one octet each, and the given prefixes. -/
def entryOf (hnps : List Ipv6Address) : Entry :=
  { mnIdentifier := .ofOctet 1, mnLinkIdentifier := .ofOctet 2, homeNetworkPrefixes := hnps }

/-- An entry with two prefixes. -/
theorem transport_two_prefixes : ∃ fuel,
    Wire.handlePbuOptions (received (entryOf [.ofOctets 32 1, .ofOctets 32 2])) fuel =
      some { carried (entryOf [.ofOctets 32 1, .ofOctets 32 2]) with
        homeNetworkPrefixes := requestedPrefixes (entryOf [.ofOctets 32 1, .ofOctets 32 2]) } :=
  transport (by decide) (by decide) (by decide) (by decide +kernel) rfl

/-- Entries that do not come out: without prefixes, with more than the 8-bit length has room for, and
with an identifier that is too long for its option. -/
def alteredEntries : List Entry := [
  entryOf [],
  entryOf (List.replicate 10 (.ofOctets 32 1)),
  { entryOf [.ofOctets 32 1] with mnIdentifier := .copyFrom (List.replicate 255 1) },
  { entryOf [.ofOctets 32 1] with mnLinkIdentifier := .copyFrom (List.replicate 254 1) }]

theorem transport_altered : alteredEntries.length = 4 ∧ ∀ bule ∈ alteredEntries, MicroSecondTime bule ∧
    ¬ ∃ fuel, Wire.handlePbuOptions (received bule) fuel = some (carried bule) := by
  refine ⟨rfl, ?_⟩
  have hall : ∀ bule ∈ alteredEntries, MicroSecondTime bule ∧
      (Wire.handlePbuOptions (received bule) 20).any (fun bundle => bundle ≠ carried bule) = true := by
    decide +kernel
  intro bule hmem
  obtain ⟨htime, hany⟩ := hall bule hmem
  refine ⟨htime, fun ⟨fuel, h⟩ => ?_⟩
  obtain ⟨bundle, hbundle, hne⟩ := (Option.any_eq_true _ _).mp hany
  exact of_decide_eq_true hne (Wire.handlePbuOptions_unique hbundle h)

end Mag

end Ns3.Pmip6
