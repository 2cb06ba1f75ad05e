import Ns3.Pmip6.LmaAnswers
import Ns3.Pmip6.OptionTransport

/-!
# Acknowledgements from end to end

An acknowledgement, as the octets that `BuildPba` makes of it, is read by `HandlePba` (`pmip6/model/pmipv6-mag.cc`).
`Deserialize` loses the last four octets of the options, but `HandlePba` goes through those of the packet.

* `handlePbaOptions_serialize` — a message of at most 264 octets gives the receiver the bundle of its options.
* `Lma.transport_pba` — the same for what `BuildPba` makes, with the fields that `HandlePba` reads.
* `Mag.recorded_of_received` — the answer to an update is taken for one by the gateway that sent the update.
-/

namespace Ns3.Pmip6

open Lib

/-- The header an acknowledgement is sent as. -/
def Ipv6MobilityBindingAckHeader.header (pba : Ipv6MobilityBindingAckHeader) : Wire.Ipv6MobilityBindingAckHeader :=
  Wire.Ipv6MobilityBindingAckHeader.addOptions
    { status := pba.status
      flags := fun
        | .p => pba.flagP
        | _ => false
      sequence := pba.sequence
      lifetime := pba.lifetime } (pba.options.map MobilityOption.header)

namespace Wire

/-- The header that `HandlePba` takes out of the packet. -/
def receivedPba (m : Memory) : Ipv6MobilityBindingAckHeader :=
  (Ipv6MobilityBindingAckHeader.deserialize (m.removeAtStart 0)).1

/-- What `HandlePba` takes out of the options of the packet; `none` while `ProcessOptions` has not ended. -/
def handlePbaOptions (m : Memory) (fuel : ℕ) : Option Ipv6MobilityOptionBundle :=
  let length := UInt8.ofNat (Ipv6MobilityBindingUpdateHeader.optionsLength (receivedPba m).headerLen)
  (processOptions m 12 length fuel {}).map Walk.bundle

/-- The walk through options in a row and one more, which end where the packet does. -/
theorem processOptions_row {m : Memory} {row : List Ipv6MobilityOptionHeader} {last : Ipv6MobilityOptionHeader}
    {effect effect' : Ipv6MobilityOptionBundle → Ipv6MobilityOptionBundle} (hrow : Walkable row effect)
    (hlast : Handled last effect') (hlie : m.packet.drop 12 = octets row ++ last.serialize)
    (hplace : 12 + (octets row).length < 256) (hlen : (octets row).length + last.serialize.length < 256) :
    ∃ fuel, (processOptions m 12 (UInt8.ofNat ((octets row).length + last.serialize.length)) fuel {}).map
      Walk.bundle = some (effect' (effect {})) := by
  have hpos : 0 < last.serialize.length := by
    obtain ⟨type, rest, _, hoctets, -, -⟩ := hlast.process
    rw [hoctets]
    exact Nat.succ_pos _
  have hn : (UInt8.ofNat (octets row).length).toNat = (octets row).length := by
    rw [UInt8.toNat_ofNat', Nat.mod_eq_of_lt (by omega)]
  have hall : (UInt8.ofNat ((octets row).length + last.serialize.length)).toNat =
      (octets row).length + last.serialize.length := by
    rw [UInt8.toNat_ofNat', Nat.mod_eq_of_lt (by omega)]
  have hbefore : processOptions m 12 (UInt8.ofNat ((octets row).length + last.serialize.length)) (2 + row.length) {} =
      processOptions m 12 (UInt8.ofNat ((octets row).length + last.serialize.length)) 2
        ⟨0 + UInt8.ofNat (octets row).length, effect {}⟩ :=
    processOptions_of_walkable hrow 2 ⟨_, hlie.symm⟩ (show 12 + 0 + _ < 256 by omega) (show 0 + _ ≤ _ by omega)
  have hrest : m.packet.drop (12 + (UInt8.ofNat (octets row).length).toNat) = last.serialize := by
    rw [hn, ← List.drop_drop, hlie, List.drop_left]
  have hstep := iterate_of_handled (m := m) (w := ⟨UInt8.ofNat (octets row).length, effect {}⟩) hlast
    (hrest ▸ List.prefix_rfl) (show 12 + (UInt8.ofNat (octets row).length).toNat < 256 by omega)
  have hlt : UInt8.ofNat (octets row).length < UInt8.ofNat ((octets row).length + last.serialize.length) := by
    rw [UInt8.lt_iff_toNat_lt]
    omega
  have hend : ¬ UInt8.ofNat (octets row).length + UInt8.ofNat last.serialize.length <
      UInt8.ofNat ((octets row).length + last.serialize.length) := by
    rw [← UInt8.ofNat_add]
    exact UInt8.lt_irrefl _
  refine ⟨2 + row.length, ?_⟩
  simp only [hbefore, UInt8.zero_add, processOptions, if_pos hlt, hstep, if_neg hend, Option.map_some]

variable {pba : Pmip6.Ipv6MobilityBindingAckHeader} {m : Memory}

theorem receivedPba_eq (hs : pba.header.getSerializedSize ≤ 264) (hm : m.packet = pba.header.serialize) :
    receivedPba m = pba.header.decoded := by
  have hat : (m.removeAtStart 0).At pba.header.serialize := by
    intro i b hb
    change m.packet[min 0 m.packet.length + i]?.getD _ = b
    rw [Nat.zero_min, Nat.zero_add, hm, hb, Option.getD_some]
  rw [receivedPba, pba.header.deserialize_serialize (Nat.le_trans hs (by decide)) hat]

/-- The receiver of a message of at most 264 octets whose last option is a time stamp gets the bundle of its options. -/
theorem handlePbaOptions_serialize {init : List MobilityOption} {t : ℤ}
    (hoptions : pba.options = init ++ [.timestamp t]) (hfits : ∀ option ∈ pba.options, option.Fits)
    (hs : pba.header.getSerializedSize ≤ 264) (hm : m.packet = pba.header.serialize) :
    ∃ fuel, handlePbaOptions m fuel = some pba.bundle := by
  -- the options lie as those of an update with the same options do
  obtain ⟨row, hfield, hrow⟩ := @serialize_of_timestamp { options := pba.options } init t hoptions hfits
  change pba.header.toMobilityOptionField.serialize = _ at hfield
  have htime := MobilityOption.handled (hfits (.timestamp t) (by
    rw [hoptions]
    exact List.mem_append_right _ List.mem_cons_self))
  have hten : (MobilityOption.timestamp t).header.serialize.length = 10 := by
    simp [MobilityOption.header, Ipv6MobilityOptionHeader.timestamp, OptionClass.header, OptionClass.serialize,
      timestamp]
  have hsize : pba.header.getSerializedSize = 12 + ((octets row).length + 10) := by
    rw [Ipv6MobilityBindingAckHeader.getSerializedSize, ← MobilityOptionField.length_serialize, hfield,
      List.length_append, hten]
  have hmod := pba.header.length_options_mod
  rw [hfield, List.length_append, hten] at hmod
  have hlength :
      Ipv6MobilityBindingUpdateHeader.optionsLength (receivedPba m).headerLen = (octets row).length + 10 := by
    have hlen : (UInt8.ofNat (pba.header.getSerializedSize / 8 - 1)).toNat = pba.header.getSerializedSize / 8 - 1 := by
      rw [UInt8.toNat_ofNat', Nat.mod_eq_of_lt (by omega)]
    rw [receivedPba_eq hs hm, Ipv6MobilityBindingAckHeader.decoded, Ipv6MobilityBindingUpdateHeader.optionsLength,
      Nat.shiftLeft_eq, hlen]
    omega
  have hlie : m.packet.drop 12 = octets row ++ (MobilityOption.timestamp t).header.serialize := by
    rw [hm, ← hfield, Ipv6MobilityBindingAckHeader.serialize]
    exact List.drop_left' (by simp)
  obtain ⟨fuel, hwalk⟩ := processOptions_row hrow htime hlie (by omega) (by omega)
  refine ⟨fuel, ?_⟩
  rw [handlePbaOptions, hlength, ← hten, hwalk, Pmip6.Ipv6MobilityBindingAckHeader.bundle, hoptions,
    processOptions_append]
  rfl

end Wire

namespace Lma

variable {pba : Ipv6MobilityBindingAckHeader} {m : Wire.Memory} {mnId mnLinkId : Identifier}
  {hnpList : List Ipv6Address} {hi att : UInt8} {magLinkAddress : Ipv6Address} {timestamp : ℤ}

theorem fits_pbaOptions (hid : mnId.octets.length ≤ 254) (hlid : mnLinkId.octets.length ≤ 253)
    (ht : Time.Representable timestamp) :
    ∀ option ∈ pbaOptions mnId hnpList hi att mnLinkId magLinkAddress timestamp, option.Fits := by
  intro option ho
  simp only [pbaOptions, List.mem_append, List.mem_cons, List.not_mem_nil, or_false] at ho
  rcases ho with ((((rfl | ho) | rfl | rfl | rfl) | ho) | rfl)
  · exact hid
  · obtain ⟨hnp, -, rfl⟩ := List.mem_map.mp ho
    trivial
  · trivial
  · trivial
  · exact hlid
  · split at ho
    · exact absurd ho List.not_mem_nil
    · rw [List.mem_singleton.mp ho]
      trivial
  · exact ht

/-- An acknowledgement with the options that `BuildPba` adds, of at most 264 octets, is read by `HandlePba` with its
status, sequence number, lifetime and all of its options. -/
theorem transport_pba (hoptions : pba.options = pbaOptions mnId hnpList hi att mnLinkId magLinkAddress timestamp)
    (hid : mnId.octets.length ≤ 254) (hlid : mnLinkId.octets.length ≤ 253) (ht : Time.Representable timestamp)
    (hs : pba.header.getSerializedSize ≤ 264) (hm : m.packet = pba.header.serialize) :
    ((Wire.receivedPba m).status = pba.status ∧ (Wire.receivedPba m).sequence = pba.sequence ∧
      (Wire.receivedPba m).lifetime = pba.lifetime) ∧
    ∃ fuel, Wire.handlePbaOptions m fuel = some
      { mnIdentifier := mnId
        mnLinkIdentifier := mnLinkId
        homeNetworkPrefixes := hnpList
        magLinkAddress := magLinkAddress
        accessTechnologyType := att
        handoffIndicator := hi
        timestamp := Time.cutToMicroSeconds timestamp } := by
  refine ⟨by rw [Wire.receivedPba_eq hs hm]; exact ⟨rfl, rfl, rfl⟩, ?_⟩
  obtain ⟨fuel, hbundle⟩ := Wire.handlePbaOptions_serialize hoptions (hoptions ▸ fits_pbaOptions hid hlid ht) hs hm
  rw [Ipv6MobilityBindingAckHeader.bundle, hoptions, processOptions_pbaOptions] at hbundle
  exact ⟨fuel, hbundle⟩

/-- The message, with zeros behind it. -/
def sentMemory (pba : Ipv6MobilityBindingAckHeader) : Wire.Memory := ⟨pba.header.serialize, fun _ => 0, fun _ => 0⟩

/-- An answer to the update of a mobile node with two prefixes. -/
def pbaOfTwo : Ipv6MobilityBindingAckHeader :=
  { sequence := 7
    lifetime := 60
    options := pbaOptions Small.mn [Small.hnp, .ofOctets 0x3f 2] 3 4 (.ofOctet 2) .zero (Time.seconds 10) }

theorem transport_pbaOfTwo : (Wire.receivedPba (sentMemory pbaOfTwo)).sequence = 7 ∧
    ∃ fuel, (Wire.handlePbaOptions (sentMemory pbaOfTwo) fuel).map (·.homeNetworkPrefixes) =
      some [Small.hnp, .ofOctets 0x3f 2] := by
  obtain ⟨⟨-, hsequence, -⟩, fuel, hbundle⟩ := @transport_pba pbaOfTwo (sentMemory pbaOfTwo) _ _ _ _ _ _ _ rfl
    (by decide) (by decide) (by decide) (by decide +kernel) rfl
  exact ⟨hsequence, fuel, by rw [hbundle]; rfl⟩

/-! ### The exchange -/

variable {now : ℤ} {src : Ipv6Address} {pbu : Ipv6MobilityBindingUpdateHeader} {lma lma' : Lma} {sent : Sent}

theorem built_of_binding {b : BindingCache.Binding} (hid : b.mnIdentifier = pbu.bundle.mnIdentifier)
    (hlid : b.mnLinkIdentifier = pbu.bundle.mnLinkIdentifier) (hseq : b.lastBindingUpdateSequence = pbu.sequence)
    (htime : b.lastBindingUpdateTime = pbu.bundle.timestamp) (hlife : 0 < pbu.lifetime) (status : BAStatus) :
    Answers pbu (buildPba b status) ∧ ∃ hnpList hi att magLinkAddress,
      (buildPba b status).options = pbaOptions pbu.bundle.mnIdentifier hnpList hi att pbu.bundle.mnLinkIdentifier
        magLinkAddress pbu.bundle.timestamp := by
  refine ⟨answers_buildPba hseq htime hid hlife status, b.homeNetworkPrefixes, b.handoffIndicator,
    b.accessTechnologyType, b.magLinkAddress, ?_⟩
  rw [← hid, ← hlid, ← htime, buildPba]

/-- What an update with a lifetime is answered with at once, whatever the anchor has. -/
theorem built_of_handlePbu (hlife : 0 < pbu.lifetime) (h : handlePbu now src pbu lma = some (lma', some sent)) :
    sent.dst = src ∧ Answers pbu sent.pba ∧ ∃ hnpList hi att magLinkAddress,
      sent.pba.options = pbaOptions pbu.bundle.mnIdentifier hnpList hi att pbu.bundle.mnLinkIdentifier magLinkAddress
        pbu.bundle.timestamp := by
  have hid : ∀ bce p, (path now src pbu lma).entry = some (bce, p) → bce.mnIdentifier = pbu.bundle.mnIdentifier :=
    fun bce p hentry => (getElem?_of_path hentry).2
  rw [handlePbu_eq] at h
  cases hpath : path now src pbu lma with
  | skip | delay bce p =>
    rw [hpath] at h
    cases h
  | deregister bce p | foreign bce p => exact absurd (lifetime_of_path hpath) (UInt16.pos_iff_ne_zero.mp hlife)
  | rejected errStatus =>
    rw [hpath] at h
    cases h
    exact ⟨rfl, answers_buildPbaFor pbu errStatus, _, _, _, _, rfl⟩
  | unknown => exact absurd (lifetime_of_path hpath) (UInt16.pos_iff_ne_zero.mp hlife)
  | update bce p =>
    have hbce := hid bce p (by rw [hpath]; rfl)
    rw [hpath] at h
    cases h
    exact ⟨rfl, built_of_binding (b := (updated now src pbu bce).toBinding) hbce rfl rfl rfl hlife _⟩
  | create =>
    rw [hpath] at h
    cases h
    exact ⟨rfl, built_of_binding rfl rfl rfl rfl hlife _⟩
  | handOff bce p =>
    have hbce := hid bce p (by rw [hpath]; rfl)
    rw [hpath] at h
    obtain ⟨r, -, hr⟩ := Option.map_eq_some_iff.mp h
    cases hr
    refine ⟨rfl, built_of_binding ?_ ?_ ?_ ?_ hlife _⟩
    · exact hbce
    · rfl
    · rfl
    · rfl

end Lma

namespace Mag

open BindingUpdateList

variable {now now' : ℤ} {ifIndex : ℕ} {sequence : UInt16} {bule : Entry} {src : Ipv6Address} {lma lma' : Lma}
  {sent : Lma.Sent} {m : Wire.Memory}

/-- Whatever an anchor has and answers at once to the update that a gateway sends for an attachment, the gateway finds
its entry by the octets of the answer, and takes the answer for one to its update. -/
theorem recorded_of_received
    (hpbu : Lma.handlePbu now' src (attachPbu now ifIndex sequence bule) lma = some (lma', some sent))
    (hid : bule.mnIdentifier.octets.length ≤ 254) (hlid : bule.mnLinkIdentifier.octets.length ≤ 253)
    (ht : Time.Representable (Time.cutToMicroSeconds now)) (hs : sent.pba.header.getSerializedSize ≤ 264)
    (hm : m.packet = sent.pba.header.serialize) :
    sent.dst = src ∧ ∃ fuel bundle, Wire.handlePbaOptions m fuel = some bundle ∧
      bundle.mnIdentifier = bule.mnIdentifier ∧
      (update now ifIndex sequence bule).Recorded (Wire.receivedPba m).sequence bundle.timestamp := by
  have htime : MicroSecondTime { bule with
      ifIndex := BitVec.ofNat 16 ifIndex
      lastBindingUpdateSequence := sequence
      lastBindingUpdateTime := Time.cutToMicroSeconds now } :=
    ⟨ht, Time.cutToMicroSeconds_cutToMicroSeconds now⟩
  have hbundle := bundle_buildPbu htime
  have hlife : 0 < (attachPbu now ifIndex sequence bule).lifetime :=
    show 0 < Ipv6MobilityL4Protocol.maxBindingLifetime by decide
  obtain ⟨hdst, hanswers, hnpList, hi, att, magLinkAddress, hoptions⟩ := Lma.built_of_handlePbu hlife hpbu
  rw [attachPbu, hbundle] at hoptions
  have hfits : ∀ option ∈ sent.pba.options, option.Fits := hoptions ▸ Lma.fits_pbaOptions hid hlid ht
  obtain ⟨fuel, hreceived⟩ := Wire.handlePbaOptions_serialize hoptions hfits hs hm
  refine ⟨hdst, fuel, _, hreceived, ?_, ?_⟩
  · rw [hanswers.mnIdentifier, attachPbu, hbundle]
    rfl
  · rw [Wire.receivedPba_eq hs hm]
    exact Lma.recorded_of_answers hanswers

/-- The entry of a mobile node that attaches to a new anchor. -/
def newcomer : Entry :=
  { mnIdentifier := Lma.Small.mn, mnLinkIdentifier := .ofOctet 2, homeNetworkPrefixes := [Lma.Small.hnp],
    handoffIndicator := 1, accessTechnologyType := 4 }

theorem recorded_of_newcomer : ∃ (sent : Lma.Sent) (fuel : ℕ) (bundle : Ipv6MobilityOptionBundle),
    sent.dst = Lma.Small.magA ∧
    Wire.handlePbaOptions (Lma.sentMemory sent.pba) fuel = some bundle ∧
    (update (Time.seconds 10) 1 5 newcomer).Recorded (Wire.receivedPba (Lma.sentMemory sent.pba)).sequence
      bundle.timestamp := by
  have hanswer : (Lma.handlePbu (Time.seconds 10) Lma.Small.magA (attachPbu (Time.seconds 10) 1 5 newcomer)
      Lma.Small.anchor.lma).any (fun r => r.2.any fun sent =>
        decide (sent.pba.header.getSerializedSize ≤ 264)) = true := by
    decide +kernel
  obtain ⟨⟨lma', message⟩, hpbu, hsome⟩ := (Option.any_eq_true _ _).mp hanswer
  obtain ⟨sent, rfl, hsize⟩ := (Option.any_eq_true _ _).mp hsome
  obtain ⟨hdst, fuel, bundle, hreceived, -, hrecorded⟩ := recorded_of_received hpbu (by decide) (by decide) (by decide)
    (of_decide_eq_true hsize) (m := Lma.sentMemory sent.pba) rfl
  exact ⟨sent, fuel, bundle, hdst, hreceived, hrecorded⟩

end Mag

end Ns3.Pmip6
