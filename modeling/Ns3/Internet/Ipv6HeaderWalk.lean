import Ns3.Internet.Ipv6LocalDeliver
import Ns3.Lib.Store

/-!
# The walk over the extension headers

`Right` says what the rounds of `LocalDeliver` (`Ipv6LocalDeliver`) should do: an extension header is followed by the
one that begins `8 (length + 1)` octets further on, what the upper layer gets begins where the last one ends, and a
packet is dropped only where the octets of the header call for it.

* `right_iff` — a round does it if and only if it meets `Fits`: the packet does not begin with a hop-by-hop header, a
  header is inside the packet and ends before position 256, its options end where it ends, the fields of a routing
  header are also at the start of the packet, where they are read, and the fragments of a packet have their fragment
  headers at the same position.
* `walk_iff` — the same for all rounds; and there are not more rounds than octets when, besides, the position of the
  next option does not wrap round (`Advances`).
-/

namespace Ns3.Ipv6L3Protocol

open Lib Ipv6ExtensionHeader DeliverState

/-- An option that is not known, whose type says that the packet must be discarded. -/
def MustBeDiscarded (optionType : UInt8) : Prop := Ipv6Option.getOption optionType = none ∧ optionType >>> 6 ≠ 0
deriving Decidable

/-- Going from option to option, one comes to one that must be discarded. -/
inductive HasDiscarded : List UInt8 → Prop where
  | here {optionType : UInt8} {rest : List UInt8} : MustBeDiscarded optionType → HasDiscarded (optionType :: rest)
  | pad1 {rest : List UInt8} : HasDiscarded rest → HasDiscarded (Ipv6Option.pad1.optionNumber :: rest)
  /-- It is behind an option with a length. -/
  | behind {optionType length : UInt8} {rest : List UInt8} : optionType ≠ Ipv6Option.pad1.optionNumber →
      HasDiscarded (rest.drop length.toNat) → HasDiscarded (optionType :: length :: rest)

namespace Walk

variable (w : Walk)

/-- The size of the header at the position. -/
def headerSize : Option ℕ := w.packet[w.position.toNat + 1]?.map getLength

/-- The segments left, in the routing header at the position. -/
def segmentsLeft : Option UInt8 := w.packet[w.position.toNat + 3]?

variable (ip : Ipv6Header)

/-- The fragment header at the position, and the fragments of its packet with this one. -/
def gathered (w : Walk) :
    Option (Ipv6ExtensionFragmentHeader × Ipv6ExtensionFragment.Fragments) := do
  let (fragmentHeader, p) ← removeHeader Ipv6ExtensionFragmentHeader.deserialize
    (fun _ => Ipv6ExtensionFragmentHeader.serializedSize) (w.packet.drop w.position.toNat)
  let fragments := (w.fragments.lookup (ip.source, fragmentHeader.identification)).getD .new
  let fragments :=
    if fragmentHeader.getOffset = 0 then fragments.setUnfragmentablePart (w.packet.take w.position.toNat) else fragments
  some (fragmentHeader, fragments.addFragment p fragmentHeader.getOffset fragmentHeader.getMoreFragment)

/-- The next header begins where the one at the position ends. -/
def Next (w w' : Walk) : Prop :=
  w'.packet = w.packet ∧ w.packet[w.position.toNat]? = some w'.nextHeader ∧
    w.headerSize.map (w.position.toNat + ·) = some w'.position.toNat

/-- The next header begins where the unfragmentable part of the packet ends that is put together. -/
def NextOfFragment (w w' : Walk) : Prop :=
  ∃ fragmentHeader fragments unfragmentable, w.gathered ip = some (fragmentHeader, fragments) ∧
    fragments.unfragmentable = some unfragmentable ∧
    w'.packet = unfragmentable ++ fragments.fragments.flatMap Prod.fst ∧
    w'.nextHeader = fragmentHeader.nextHeader ∧ w'.position.toNat = unfragmentable.length

/-- The header at the position calls for the packet to be dropped: its own packet is not complete yet, or it has
segments left. -/
def CallsForDrop (w : Walk) : Prop :=
  if w.nextHeader = Ipv6Header.extFragmentation then
    ∃ fragmentHeader fragments, w.gathered ip = some (fragmentHeader, fragments) ∧ fragments.isEntire = false
  else w.nextHeader = Ipv6Header.extRouting ∧ ∃ left, w.segmentsLeft = some left ∧ left ≠ 0

/-- The options that the header at the position has by its own size call for the packet to be dropped. -/
def OptionsCallForDrop : Prop :=
  ∃ size ∈ w.headerSize, HasDiscarded (((w.packet.take (w.position.toNat + size)).drop
    (w.position.toNat + Ipv6OptionsHeader.optionsOffset)))

/-- The octets from the options of the header on, as `ProcessOptions` finds them. -/
def data : List UInt8 := w.packet.drop (w.position + UInt8.ofNat Ipv6OptionsHeader.optionsOffset).toNat

variable (processedSize : UInt8)

/-- The octets from which `Process` of an option reads. -/
def optionData : List UInt8 :=
  w.packet.drop (w.position + UInt8.ofNat Ipv6OptionsHeader.optionsOffset + processedSize).toNat

/-- What is read of the option at a place is inside the packet. -/
def OptionFits : Prop :=
  match w.data[processedSize.toNat]? with
  | none => False
  | some optionType =>
    match Ipv6Option.getOption optionType with
    | none => optionType >>> 6 = 0 → processedSize.toNat + 1 < w.data.length
    | some ipv6Option => ipv6Option.octetsRead ≤ (w.optionData processedSize).length

/-- Where the option at a place makes the packet be dropped, the options of the header call for it. -/
def DropFits : Prop :=
  (∃ optionType ∈ w.data[processedSize.toNat]?, MustBeDiscarded optionType) → w.OptionsCallForDrop

/-- The length of the option at a place does not lead beyond position 255. -/
def OptionAdvances : Prop :=
  ∀ optionType ∈ w.data[processedSize.toNat]?,
    match Ipv6Option.getOption optionType with
    | none => ∀ length ∈ w.data[processedSize.toNat + 1]?, processedSize.toNat + length.toNat + 2 < 256
    | some .pad1 => True
    | some _ => ∀ length ∈ (w.optionData processedSize)[1]?, processedSize.toNat + length.toNat + 2 < 256

/-- A loose routing header that is inside the packet, and that has no segments left, is of even length, ends before
position 256, and has its next header also at the start of the packet. -/
def LooseRoutingFits (nextHeader : UInt8) : Prop :=
  ∃ length, w.packet[w.position.toNat + 1]? = some length ∧
    w.position.toNat + 8 + 16 * (length / 2).toNat ≤ w.packet.length ∧
    (w.segmentsLeft = some 0 → w.packet[w.position.toNat]? = some nextHeader ∧
      length.toNat % 2 = 0 ∧ w.position.toNat + getLength length < 256)

/-- The routing header is as `Process` takes it to be from the first octets of the packet: these are the next header,
the size and that no segments are left, or segments are left in both. -/
def RoutingFits : Prop :=
  match w.packet with
  | nextHeader :: length :: typeRouting :: segmentsLeft :: _ =>
    if typeRouting = Ipv6ExtensionLooseRouting.typeRouting then w.LooseRoutingFits nextHeader
    else if segmentsLeft = 0 then
      w.packet[w.position.toNat]? = some nextHeader ∧ w.headerSize = some length.toNat ∧
        w.position.toNat + length.toNat < 256
    else ∃ left, w.segmentsLeft = some left ∧ left ≠ 0
  | _ => False

/-- The fragment header is inside the packet; the unfragmentable part of its packet, if this is now complete, is as long
as the position. -/
def FragmentFits (w : Walk) : Prop :=
  ∃ fragmentHeader fragments, w.gathered ip = some (fragmentHeader, fragments) ∧
    (fragments.isEntire = true → fragments.unfragmentable.map List.length = some w.position.toNat)

end Walk

/-- What the rounds should do. -/
def Right (ip : Ipv6Header) : DeliverState → DeliverState → Prop
  | received packet _, walk w => w.packet = packet ∧ w.nextHeader = ip.nextHeader ∧ w.position = 0
  | walk w, walk w' => if w.nextHeader = Ipv6Header.extFragmentation then w.NextOfFragment ip w' else w.Next w'
  | walk w, options w' _ _ =>
    w'.packet = w.packet ∧ w'.position = w.position ∧ w.packet[w.position.toNat]? = some w'.nextHeader
  | walk w, delivered protocol octets => protocol = w.nextHeader ∧ octets = w.packet.drop w.position.toNat
  | walk _, unknownProtocol => True
  | walk w, dropped => w.CallsForDrop ip
  | options w _ _, walk w' =>
    w'.packet = w.packet ∧ w'.nextHeader = w.nextHeader ∧
      w.headerSize.map (w.position.toNat + ·) = some w'.position.toNat
  | options w _ _, options w' _ _ => w' = w
  | options w _ _, dropped => w.OptionsCallForDrop
  | _, _ => False

/-- The condition under which they do. -/
def Fits (ip : Ipv6Header) : DeliverState → Prop
  | received packet _ => ip.nextHeader = Ipv6Header.extHopByHop → packet[0]? = some 0 ∧ packet[1]? = some 0
  | walk w =>
    match Ipv6Extension.getExtension w.nextHeader with
    | none => True
    | some .hopByHop | some .destination => ∃ size ∈ w.headerSize, w.position.toNat + size ≤ w.packet.length
    | some .fragment => w.FragmentFits ip
    | some .routing => w.RoutingFits
  | options w length processedSize =>
    if length > processedSize then w.OptionFits processedSize ∧ w.DropFits processedSize
    else w.headerSize = some (processedSize.toNat + 2) ∧ w.position.toNat + processedSize.toNat + 2 < 256
  | _ => True

/-- The positions of the options do not wrap round. -/
def Advances : DeliverState → Prop
  | options w length processedSize => length > processedSize → w.OptionAdvances processedSize
  | _ => True

/-! ### Routing headers -/

namespace Walk

theorem process_looseRouting (ip : Ipv6Header) (w : Walk) :
    (Ipv6ExtensionLooseRouting.process w.packet w.position ip = none ∧
      ∀ length, w.packet[w.position.toNat + 1]? = some length →
        w.packet.length < w.position.toNat + 8 + 16 * (length / 2).toNat) ∨
    ∃ length segmentsLeft r, w.packet[w.position.toNat + 1]? = some length ∧
      w.packet[w.position.toNat + 3]? = some segmentsLeft ∧
      w.position.toNat + 8 + 16 * (length / 2).toNat ≤ w.packet.length ∧
      Ipv6ExtensionLooseRouting.process w.packet w.position ip = some r ∧
      r.size = UInt8.ofNat (8 + 16 * (length / 2).toNat) ∧ r.isDropped = decide (segmentsLeft ≠ 0) := by
  have hdrop : ∀ i, (w.packet.drop w.position.toNat)[i]? = w.packet[w.position.toNat + i]? :=
    fun i => List.getElem?_drop
  cases hlength : w.packet[w.position.toNat + 1]? with
  | none =>
    refine .inl ⟨?_, fun length h => absurd h (by simp)⟩
    rw [Ipv6ExtensionLooseRouting.process]
    dsimp only
    rw [hdrop, hlength]
    rfl
  | some length =>
    obtain ⟨routingHeader, hnumber, hfields, hread⟩ := Ipv6ExtensionLooseRoutingHeader.removeHeader_eq
      (w.packet.drop w.position.toNat) (length / 2).toNat
    have hiff : 8 + 16 * (length / 2).toNat ≤ (w.packet.drop w.position.toNat).length ↔
        w.position.toNat + 8 + 16 * (length / 2).toNat ≤ w.packet.length := by
      rw [List.length_drop]
      omega
    by_cases hinside : w.position.toNat + 8 + 16 * (length / 2).toNat ≤ w.packet.length
    · obtain ⟨-, hfield, hsegments⟩ := hfields (hiff.mpr hinside)
      rw [if_pos (hiff.mpr hinside)] at hread
      rw [hdrop, hlength] at hfield
      rw [hdrop] at hsegments
      obtain ⟨r, hr, hsize, hdropped⟩ := Ipv6ExtensionLooseRouting.process_of_removeHeader
        ((hdrop 1).trans hlength) (Option.some.inj hfield).symm hnumber hread
      rw [Ipv6ExtensionLooseRoutingHeader.serializedSize, hnumber, Nat.mul_comm] at hsize
      exact .inr ⟨length, _, r, rfl, hsegments, hinside, hr, hsize, hdropped⟩
    · refine .inl ⟨?_, fun length' h => Option.some.inj h ▸ Nat.lt_of_not_le hinside⟩
      rw [if_neg fun h => hinside (hiff.mp h)] at hread
      rw [Ipv6ExtensionLooseRouting.process]
      dsimp only
      rw [hdrop, hlength, Option.bind_eq_bind, Option.bind_some, hread]
      rfl

theorem ofNat_size (length : UInt8) : (UInt8.ofNat (8 + 16 * (length / 2).toNat)).toNat =
    (8 + 16 * (length.toNat / 2)) % 256 := by
  rw [UInt8.toNat_ofNat', UInt8.toNat_div]
  rfl

variable {w : Walk}

/-- The next header is found at the position that a size leads to if the header has this size, and the position stays
below 256. -/
theorem next_iff {nextHeader size : UInt8} :
    w.Next { w with nextHeader, position := w.position + size } ↔
      w.packet[w.position.toNat]? = some nextHeader ∧ w.headerSize = some size.toNat ∧
        w.position.toNat + size.toNat < 256 := by
  have hlt := size.toNat_lt
  have hlt' := w.position.toNat_lt
  rw [Next, and_iff_right rfl, UInt8.toNat_add]
  refine and_congr_right fun _ => ?_
  cases w.headerSize with
  | none => simp
  | some n =>
    rw [Option.map_some, Option.some.injEq, Option.some.injEq]
    omega

variable {ip : Ipv6Header}

theorem routingFits_iff (h : w.nextHeader = Ipv6Header.extRouting) :
    Right ip (walk w) (processExtension ip w .routing) ↔ w.RoutingFits := by
  have hfragment : w.nextHeader ≠ Ipv6Header.extFragmentation := h ▸ by decide
  have hdrop : w.CallsForDrop ip ↔ ∃ left, w.segmentsLeft = some left ∧ left ≠ 0 := by
    rw [CallsForDrop, if_neg hfragment, and_iff_right h]
  rw [processExtension, Ipv6ExtensionRouting.process, RoutingFits]
  generalize hp : w.packet = p
  rcases p with _ | ⟨nextHeader, _ | ⟨length, _ | ⟨typeRouting, _ | ⟨segmentsLeft, p⟩⟩⟩⟩
  iterate 4 exact iff_of_false id id
  dsimp only [List.getElem?_cons_zero, List.getElem?_cons_succ]
  rw [← hp]
  simp only [Option.bind_eq_bind, Option.bind_some]
  split_ifs with htype hsegment
  · rcases process_looseRouting ip w with ⟨hnone, hshort⟩ |
      ⟨length, segments, r, hlength, hsegments, hinside, hr, hsize, hdropped⟩
    · rw [hnone]
      refine iff_of_false id ?_
      rintro ⟨length, hlength, hle, -⟩
      exact absurd (hshort length hlength) (Nat.not_lt.mpr hle)
    · rw [hr, Option.bind_some]
      dsimp only
      rw [hdropped]
      have hzero : w.segmentsLeft = some 0 ↔ segments = 0 := by rw [Walk.segmentsLeft, hsegments, Option.some.injEq]
      have hfits : w.LooseRoutingFits nextHeader ↔ (segments = 0 → w.packet[w.position.toNat]? = some nextHeader ∧
          length.toNat % 2 = 0 ∧ w.position.toNat + getLength length < 256) := by
        rw [LooseRoutingFits, ← hzero]
        exact ⟨fun ⟨length', hlength', _, hloose⟩ => Option.some.inj (hlength.symm.trans hlength') ▸ hloose,
          fun hloose => ⟨length, hlength, hinside, hloose⟩⟩
      rw [hfits]
      by_cases hsegment : segments = 0
      · rw [forall_prop_of_true hsegment, hsegment]
        have hsizeof : w.headerSize = some r.size.toNat ∧ w.position.toNat + r.size.toNat < 256 ↔
            length.toNat % 2 = 0 ∧ w.position.toNat + getLength length < 256 := by
          rw [headerSize, hlength, Option.map_some, Option.some.injEq, hsize, ofNat_size, getLength]
          omega
        rw [← hsizeof]
        exact (if_neg hfragment).to_iff.trans next_iff
      · rw [if_pos (decide_eq_true hsegment)]
        exact iff_of_true (hdrop.mpr ⟨segments, hsegments, hsegment⟩) fun hzero => absurd hzero hsegment
  · rw [hsegment]
    exact (if_neg hfragment).to_iff.trans next_iff
  · dsimp only
    rw [if_pos (decide_eq_true hsegment)]
    exact hdrop

/-! ### Fragment headers -/

theorem process_fragment (ip : Ipv6Header) (w : Walk) :
    Ipv6ExtensionFragment.process w.fragments w.packet w.position ip =
      (w.gathered ip).bind fun (fragmentHeader, fragments) =>
        let fragmentsId := (ip.source, fragmentHeader.identification)
        if fragments.isEntire then
          fragments.getPacket.map fun packet => ⟨some packet, fragmentHeader.nextHeader, w.fragments.erase fragmentsId⟩
        else some ⟨none, fragmentHeader.nextHeader, w.fragments.insert fragmentsId fragments⟩ := by
  rw [Ipv6ExtensionFragment.process, gathered]
  cases removeHeader Ipv6ExtensionFragmentHeader.deserialize (fun _ => Ipv6ExtensionFragmentHeader.serializedSize)
    (w.packet.drop w.position.toNat) with
  | none => rfl
  | some x =>
    simp only [Option.bind_eq_bind, Option.bind_some]
    split_ifs
    · exact Option.map_eq_bind.symm
    · rfl
    · exact Option.map_eq_bind.symm
    · rfl

theorem fragmentFits_iff (h : w.nextHeader = Ipv6Header.extFragmentation) :
    Right ip (walk w) (processExtension ip w .fragment) ↔ w.FragmentFits ip := by
  rw [processExtension, process_fragment, FragmentFits]
  cases hgathered : w.gathered ip with
  | none => exact iff_of_false id fun ⟨_, _, heq, _⟩ => absurd heq (by simp)
  | some x =>
    obtain ⟨fragmentHeader, fragments⟩ := x
    rw [Option.bind_some]
    dsimp only
    by_cases hentire : fragments.isEntire = true
    · rw [if_pos hentire, Ipv6ExtensionFragment.Fragments.getPacket]
      cases hunfragmentable : fragments.unfragmentable with
      | none =>
        refine iff_of_false id fun ⟨_, _, heq, hlength⟩ => ?_
        obtain ⟨rfl, rfl⟩ := Prod.mk.inj (Option.some.inj heq)
        exact absurd (hlength hentire) (by rw [hunfragmentable]; simp)
      | some unfragmentable =>
        rw [Option.map_some, Option.map_some]
        refine (if_pos h).to_iff.trans ⟨fun ⟨_, _, _, heq, hpart, _, _, hlength⟩ => ?_, fun ⟨_, _, heq, hlength⟩ => ?_⟩
        · obtain ⟨rfl, rfl⟩ := Prod.mk.inj (Option.some.inj (hgathered.symm.trans heq))
          obtain rfl := Option.some.inj (hunfragmentable.symm.trans hpart)
          exact ⟨_, _, rfl, fun _ => by rw [hunfragmentable, Option.map_some, hlength]⟩
        · obtain ⟨rfl, rfl⟩ := Prod.mk.inj (Option.some.inj heq)
          have hlength := hlength hentire
          rw [hunfragmentable, Option.map_some, Option.some.injEq] at hlength
          exact ⟨_, _, _, hgathered, hunfragmentable, rfl, rfl, hlength.symm⟩
    · rw [if_neg hentire]
      refine iff_of_true ?_ ⟨fragmentHeader, fragments, rfl, fun heq => absurd heq hentire⟩
      exact (if_pos h).mpr ⟨fragmentHeader, fragments, hgathered, Bool.eq_false_of_not_eq_true hentire⟩

/-! ### Headers with options -/

/-- The header at the position can be read if and only if it is inside the packet. -/
theorem removeHeader_iff {nextHeader length : UInt8} :
    (removeHeader Ipv6OptionsHeader.deserialize Ipv6OptionsHeader.serializedSize
        (w.packet.drop w.position.toNat)).map (fun x => (x.1.nextHeader, x.1.length)) = some (nextHeader, length) ↔
      w.packet[w.position.toNat]? = some nextHeader ∧ w.packet[w.position.toNat + 1]? = some length ∧
        w.position.toNat + getLength length ≤ w.packet.length := by
  have hread := Ipv6OptionsHeader.removeHeader_eq (w.packet.drop w.position.toNat) nextHeader length
  simp only [List.getElem?_drop, Nat.add_zero, List.length_drop] at hread
  rw [hread]
  refine and_congr_right fun _ => and_congr_right fun hlength => ?_
  have hlt := (List.getElem?_eq_some_iff.mp hlength).1
  omega

theorem optionsHeader_iff :
    Right ip (walk w) (processOptionsHeader w) ↔
      ∃ size ∈ w.headerSize, w.position.toNat + size ≤ w.packet.length := by
  rw [processOptionsHeader]
  cases hremove : removeHeader Ipv6OptionsHeader.deserialize Ipv6OptionsHeader.serializedSize
      (w.packet.drop w.position.toNat) with
  | none =>
    refine iff_of_false id ?_
    rintro ⟨size, hsize, hle⟩
    obtain ⟨length, hlength, rfl⟩ := Option.map_eq_some_iff.mp hsize
    have hlt : w.position.toNat < w.packet.length :=
      Nat.lt_of_succ_lt (List.getElem?_eq_some_iff.mp hlength).1
    have hsome := removeHeader_iff.mpr ⟨List.getElem?_eq_getElem hlt, hlength, hle⟩
    rw [hremove] at hsome
    exact absurd hsome (by simp)
  | some x =>
    obtain ⟨header, rest⟩ := x
    obtain ⟨hnext, hlength, hle⟩ := removeHeader_iff.mp (congrArg _ hremove)
    refine iff_of_true ⟨rfl, rfl, hnext⟩ ⟨_, ?_, hle⟩
    rw [headerSize, hlength]
    rfl

theorem process_option_iff {o : Ipv6Option} {packet : List UInt8} {offset : UInt8} :
    (o.process packet offset).isSome = true ↔ o.octetsRead ≤ (packet.drop offset.toNat).length := by
  rw [Ipv6Option.process.eq_def]
  dsimp only
  split_ifs with hlt
  · exact iff_of_false (by simp) (Nat.not_le.mpr hlt)
  · have hle := Nat.le_of_not_lt hlt
    refine iff_of_true ?_ hle
    have hone : ∀ {n}, 2 ≤ n → n ≤ (packet.drop offset.toNat).length →
        ((packet.drop offset.toNat)[1]?.map (· + 2)).isSome = true := by
      intro n hn hlength
      rw [List.getElem?_eq_getElem (by omega)]
      rfl
    cases o with
    | pad1 => rfl
    | padn => exact hone (Nat.le_refl 2) hle
    | jumbogram => exact hone (by decide) hle
    | routerAlert => exact hone (by decide) hle

theorem processOption_iff {processedSize : UInt8} :
    (Ipv6Extension.processOption w.packet (w.position + UInt8.ofNat Ipv6OptionsHeader.optionsOffset)
      processedSize).isSome = true ↔ w.OptionFits processedSize := by
  rw [Ipv6Extension.processOption, OptionFits]
  change (Option.isSome (Option.bind w.data[processedSize.toNat]? _)) = true ↔ _
  cases w.data[processedSize.toNat]? with
  | none => exact iff_of_false (by simp) id
  | some optionType =>
    rw [Option.bind_some]
    dsimp only
    cases Ipv6Option.getOption optionType with
    | none =>
      dsimp only
      split_ifs with htype
      · rw [Option.isSome_map, isSome_getElem?, forall_prop_of_true htype]
        exact Iff.rfl
      · exact iff_of_true rfl fun h => absurd h htype
    | some ipv6Option =>
      dsimp only
      rw [Option.isSome_map]
      exact process_option_iff

theorem dropped_iff {processedSize : UInt8} :
    Ipv6Extension.processOption w.packet (w.position + UInt8.ofNat Ipv6OptionsHeader.optionsOffset) processedSize =
      some .dropped ↔ ∃ optionType ∈ w.data[processedSize.toNat]?, MustBeDiscarded optionType := by
  rw [Ipv6Extension.processOption]
  change Option.bind w.data[processedSize.toNat]? _ = _ ↔ _
  rw [Option.bind_eq_some_iff]
  refine exists_congr fun optionType => and_congr_right fun _ => ?_
  rw [MustBeDiscarded]
  cases Ipv6Option.getOption optionType with
  | none =>
    dsimp only
    split_ifs with htype
    · simp [htype]
    · simp [htype]
  | some ipv6Option => simp

theorem optionsEnd_iff {length processedSize : UInt8} :
    Right ip (options w length processedSize)
      (walk { w with position := w.position + (UInt8.ofNat Ipv6OptionsHeader.optionsOffset + processedSize) }) ↔
    w.headerSize = some (processedSize.toNat + 2) ∧ w.position.toNat + processedSize.toNat + 2 < 256 := by
  have hlt := processedSize.toNat_lt
  have hlt' := w.position.toNat_lt
  have htwo : (UInt8.ofNat Ipv6OptionsHeader.optionsOffset).toNat = 2 := rfl
  rw [Right, and_iff_right rfl, and_iff_right rfl, UInt8.toNat_add, UInt8.toNat_add, htwo]
  cases hsize : w.headerSize with
  | none => simp
  | some n =>
    obtain ⟨length, -, rfl⟩ := Option.map_eq_some_iff.mp hsize
    rw [Option.map_some, Option.some.injEq, Option.some.injEq, getLength]
    omega

end Walk

/-! ### Rounds -/

variable {protocols : UInt8 → Bool} {ip : Ipv6Header}

theorem right_iff {s : DeliverState} (h : s.isOver = false) : Right ip s (deliverStep protocols ip s) ↔ Fits ip s := by
  cases s with
  | received packet fragments =>
    rw [deliverStep.eq_def, Fits]
    dsimp only
    split_ifs with hhop
    · rw [forall_prop_of_true hhop]
      rcases packet with _ | ⟨buf0, _ | ⟨buf1, packet⟩⟩
      · exact iff_of_false id fun h => absurd h.1 (by simp)
      · exact iff_of_false id fun h => absurd h.2 (by simp)
      · change (_ = _ ∧ buf0 = ip.nextHeader ∧ buf1 = 0) ↔ some buf0 = some 0 ∧ some buf1 = some 0
        rw [hhop, and_iff_right rfl, Option.some.injEq, Option.some.injEq]
        exact Iff.rfl
    · exact iff_of_true ⟨rfl, rfl, rfl⟩ fun h => absurd h hhop
  | walk w =>
    rw [deliverStep, Fits]
    cases hext : Ipv6Extension.getExtension w.nextHeader with
    | none =>
      dsimp only
      split_ifs
      · exact iff_of_true ⟨rfl, rfl⟩ trivial
      · exact iff_of_true trivial trivial
    | some ipv6Extension =>
      have hfound := List.find?_some hext
      have hnumber : ipv6Extension.extensionNumber = w.nextHeader := of_decide_eq_true hfound
      cases ipv6Extension with
      | hopByHop => exact Walk.optionsHeader_iff
      | destination => exact Walk.optionsHeader_iff
      | fragment => exact Walk.fragmentFits_iff hnumber.symm
      | routing => exact Walk.routingFits_iff hnumber.symm
  | options w length processedSize =>
    rw [deliverStep, Fits]
    split_ifs with hlt
    · rw [← Walk.processOption_iff, Walk.DropFits, ← Walk.dropped_iff]
      split
      · rename_i hnone
        exact iff_of_false id fun h => absurd h.1 (by rw [hnone]; simp)
      · rename_i hdropped
        rw [hdropped, forall_prop_of_true rfl]
        exact (and_iff_right rfl).symm
      · rename_i hadvance
        rw [hadvance]
        exact iff_of_true rfl ⟨rfl, fun h => absurd h (by simp)⟩
    · exact Walk.optionsEnd_iff
  | delivered | unknownProtocol | dropped | failed => exact absurd h (by simp [isOver])

/-! ### The number of rounds -/

/-- The octets that are kept of a packet. -/
def keptOctets (f : Ipv6ExtensionFragment.Fragments) : ℕ :=
  (f.unfragmentable.getD []).length + (f.fragments.flatMap Prod.fst).length

namespace Walk

/-- The octets of the packet, and those that are kept of others. -/
def octets (w : Walk) : ℕ := w.packet.length + Store.tally (fun _ f => keptOctets f) w.fragments

theorem keptOctets_addFragment (f : Ipv6ExtensionFragment.Fragments) (fragment : List UInt8) (fragmentOffset : ℕ)
    (moreFragment : Bool) : keptOctets (f.addFragment fragment fragmentOffset moreFragment) =
      keptOctets f + fragment.length := by
  have hperm := (Pieces.perm_insert (fragment, fragmentOffset) f.fragments).flatMap_right Prod.fst
  rw [keptOctets, Ipv6ExtensionFragment.Fragments.addFragment, keptOctets, hperm.length_eq, List.flatMap_cons,
    List.length_append]
  dsimp only
  omega

theorem of_removeHeader_fragment {p q : List UInt8} {h : Ipv6ExtensionFragmentHeader}
    (hread : removeHeader Ipv6ExtensionFragmentHeader.deserialize
      (fun _ => Ipv6ExtensionFragmentHeader.serializedSize) p = some (h, q)) :
    8 ≤ p.length ∧ q = p.drop 8 := by
  change (if 8 ≤ p.length then some (_, p.drop 8) else none) = _ at hread
  split_ifs at hread with hle
  exact ⟨hle, (Prod.mk.inj (Option.some.inj hread)).2.symm⟩

/-- With a fragment come no more octets than it has behind its header. -/
theorem keptOctets_gathered {ip : Ipv6Header} {w : Walk} {h : Ipv6ExtensionFragmentHeader}
    {f : Ipv6ExtensionFragment.Fragments} (hgathered : w.gathered ip = some (h, f)) :
    keptOctets f + 8 ≤ w.packet.length +
      keptOctets ((w.fragments.lookup (ip.source, h.identification)).getD .new) := by
  obtain ⟨⟨fragmentHeader, p⟩, hread, heq⟩ := Option.bind_eq_some_iff.mp hgathered
  obtain ⟨rfl, rfl⟩ := Prod.mk.inj (Option.some.inj heq)
  obtain ⟨hle, rfl⟩ := of_removeHeader_fragment hread
  rw [keptOctets_addFragment]
  rw [List.length_drop] at hle
  split_ifs
  · rw [keptOctets, keptOctets, Ipv6ExtensionFragment.Fragments.setUnfragmentablePart, Option.getD_some,
      List.length_take, List.length_drop, List.length_drop]
    dsimp only
    omega
  · rw [List.length_drop, List.length_drop]
    omega

theorem tally_erase_add (fragments : Ipv6ExtensionFragment.MapFragments) (k : Ipv6ExtensionFragment.FragmentsId) :
    Store.tally (fun _ f => keptOctets f) (fragments.erase k) + keptOctets ((fragments.lookup k).getD .new) =
      Store.tally (fun _ f => keptOctets f) fragments := by
  cases hlookup : fragments.lookup k with
  | none =>
    have herase : (fragments.erase k).entries = fragments.entries :=
      List.kerase_of_notMem_keys (AList.lookup_eq_none.mp hlookup)
    rw [Store.tally, herase]
    rfl
  | some f => exact Store.tally_erase hlookup

/-- When a packet is put together, the octets become fewer. -/
theorem processExtension_fragment (ip : Ipv6Header) (w : Walk) :
    processExtension ip w .fragment = failed ∨ processExtension ip w .fragment = dropped ∨
      ∃ w', processExtension ip w .fragment = walk w' ∧ w'.octets < w.octets ∧ w'.position = w.position := by
  rw [processExtension, process_fragment]
  cases hgathered : w.gathered ip with
  | none => exact .inl rfl
  | some x =>
    obtain ⟨fragmentHeader, fragments⟩ := x
    have hkept := keptOctets_gathered hgathered
    have herase := tally_erase_add w.fragments (ip.source, fragmentHeader.identification)
    rw [Option.bind_some]
    dsimp only
    split_ifs
    · rw [Ipv6ExtensionFragment.Fragments.getPacket]
      cases hunfragmentable : fragments.unfragmentable with
      | none => exact .inl rfl
      | some unfragmentable =>
        refine .inr (.inr ⟨_, rfl, ?_, rfl⟩)
        rw [keptOctets, hunfragmentable, Option.getD_some] at hkept
        rw [octets, octets]
        dsimp only
        rw [List.length_append]
        omega
    · exact .inr (.inl rfl)

theorem processExtension_routing (ip : Ipv6Header) (w : Walk) :
    processExtension ip w .routing = failed ∨ processExtension ip w .routing = dropped ∨
      ∃ nextHeader position, processExtension ip w .routing = walk { w with nextHeader, position } := by
  rw [processExtension]
  cases Ipv6ExtensionRouting.process w.packet w.position ip with
  | none => exact .inl rfl
  | some r =>
    dsimp only
    split_ifs
    · exact .inr (.inl rfl)
    · exact .inr (.inr ⟨_, _, rfl⟩)

/-- An option that does not wrap round leads to a greater position. -/
theorem lt_of_advance {w : Walk} {processedSize optionLength : UInt8} (hlt : processedSize.toNat < 255)
    (hadvances : w.OptionAdvances processedSize)
    (h : Ipv6Extension.processOption w.packet (w.position + UInt8.ofNat Ipv6OptionsHeader.optionsOffset)
      processedSize = some (.advance optionLength)) :
    processedSize.toNat < w.packet.length ∧ processedSize.toNat < (processedSize + optionLength).toNat := by
  have hadd : ∀ length : UInt8, processedSize.toNat + length.toNat + 2 < 256 →
      processedSize.toNat < (processedSize + (length + 2)).toNat := by
    intro length hle
    rw [UInt8.toNat_add, UInt8.toNat_add]
    change _ < (processedSize.toNat + (length.toNat + 2) % 256) % 256
    omega
  obtain ⟨optionType, htype, h⟩ := Option.bind_eq_some_iff.mp h
  change w.data[processedSize.toNat]? = some optionType at htype
  have hinside : processedSize.toNat < w.packet.length := by
    have hdata := (List.getElem?_eq_some_iff.mp htype).1
    rw [data, List.length_drop] at hdata
    omega
  refine ⟨hinside, ?_⟩
  have hlength := hadvances optionType htype
  cases hoption : Ipv6Option.getOption optionType with
  | none =>
    rw [hoption] at h hlength
    dsimp only at h hlength
    split_ifs at h
    · obtain ⟨length, hread, heq⟩ := Option.map_eq_some_iff.mp h
      obtain rfl := OptionRound.advance.inj heq
      exact hadd length (hlength length hread)
    · exact absurd h (by simp)
  | some ipv6Option =>
    rw [hoption] at h hlength
    obtain ⟨size, hsize, heq⟩ := Option.map_eq_some_iff.mp h
    obtain rfl := OptionRound.advance.inj heq
    rw [Ipv6Option.process.eq_def] at hsize
    dsimp only at hsize
    split_ifs at hsize
    cases ipv6Option with
    | pad1 =>
      cases hsize
      rw [UInt8.toNat_add]
      change _ < (processedSize.toNat + 1) % 256
      omega
    | padn | jumbogram | routerAlert =>
      obtain ⟨length, hread, rfl⟩ := Option.map_eq_some_iff.mp hsize
      exact hadd length (hlength length hread)

end Walk

/-- How many rounds are left at most. -/
def rounds : DeliverState → ℕ
  | received packet fragments => packet.length + Store.tally (fun _ f => keptOctets f) fragments + 257
  | walk w => w.octets + (255 - w.position.toNat) + 1
  | options w _ processedSize => w.octets + (255 - w.position.toNat) - processedSize.toNat
  | _ => 0

theorem rounds_pos (w : Walk) : 0 < rounds (walk w) := Nat.succ_pos _

theorem rounds_walk_lt {w : Walk} (hfits : Fits ip (walk w)) :
    rounds (deliverStep protocols ip (walk w)) < rounds (walk w) := by
  have hright : Right ip (walk w) (deliverStep protocols ip (walk w)) := (right_iff rfl).mpr hfits
  rw [deliverStep.eq_def] at hright ⊢
  dsimp only at hright ⊢
  cases hext : Ipv6Extension.getExtension w.nextHeader with
  | none =>
    dsimp only
    split_ifs <;> exact rounds_pos w
  | some ipv6Extension =>
    rw [hext] at hright
    have hfound := List.find?_some hext
    have hnumber : ipv6Extension.extensionNumber = w.nextHeader := of_decide_eq_true hfound
    have hoptions : rounds (processOptionsHeader w) < rounds (walk w) := by
      rw [processOptionsHeader]
      split
      · exact rounds_pos w
      · exact Nat.lt_succ_self _
    cases ipv6Extension with
    | hopByHop => exact hoptions
    | destination => exact hoptions
    | fragment =>
      rcases Walk.processExtension_fragment ip w with h | h | ⟨w', h, hoctets, hposition⟩
      · dsimp only
        rw [h]
        exact rounds_pos w
      · dsimp only
        rw [h]
        exact rounds_pos w
      · dsimp only
        rw [h, rounds, rounds, hposition]
        omega
    | routing =>
      rcases Walk.processExtension_routing ip w with h | h | ⟨nextHeader, position, h⟩
      · dsimp only
        rw [h]
        exact rounds_pos w
      · dsimp only
        rw [h]
        exact rounds_pos w
      · have hroute : w.nextHeader ≠ Ipv6Header.extFragmentation := hnumber ▸ by decide
        dsimp only at hright ⊢
        rw [h] at hright ⊢
        rw [Right, if_neg hroute] at hright
        obtain ⟨size, hsize, hposition⟩ := Option.map_eq_some_iff.mp hright.2.2
        obtain ⟨length, -, rfl⟩ := Option.map_eq_some_iff.mp hsize
        have hlt := position.toNat_lt
        rw [rounds, rounds, Walk.octets, Walk.octets]
        rw [getLength] at hposition
        dsimp only at hposition ⊢
        omega

theorem rounds_options_lt {w : Walk} {length processedSize : UInt8} (hfits : Fits ip (options w length processedSize))
    (hadvances : Advances (options w length processedSize)) :
    rounds (deliverStep protocols ip (options w length processedSize)) < rounds (options w length processedSize) := by
  rw [Fits] at hfits
  rw [deliverStep.eq_def]
  dsimp only
  split_ifs at hfits ⊢ with hlt
  · have hless : processedSize.toNat < 255 := by
      have hle := length.toNat_lt
      have htoNat := UInt8.lt_iff_toNat_lt.mp hlt
      omega
    split
    · rename_i hnone
      rw [← Walk.processOption_iff, hnone] at hfits
      exact absurd hfits.1 (by simp)
    · rename_i hdropped
      obtain ⟨optionType, htype, -⟩ := Option.bind_eq_some_iff.mp hdropped
      have hinside := (List.getElem?_eq_some_iff.mp htype).1
      rw [List.length_drop] at hinside
      refine Nat.sub_pos_of_lt ?_
      rw [Walk.octets]
      omega
    · rename_i optionLength hadvance
      obtain ⟨hinside, hgreater⟩ := Walk.lt_of_advance hless (hadvances hlt) hadvance
      rw [rounds, rounds, Walk.octets]
      omega
  · obtain ⟨hsize, hend⟩ := hfits
    have hposition : (w.position + (UInt8.ofNat Ipv6OptionsHeader.optionsOffset + processedSize)).toNat =
        w.position.toNat + processedSize.toNat + 2 := by
      rw [UInt8.toNat_add, UInt8.toNat_add]
      change (w.position.toNat + (2 + processedSize.toNat) % 256) % 256 = _
      omega
    rw [rounds, rounds, Walk.octets, Walk.octets]
    dsimp only
    rw [hposition]
    omega

theorem rounds_lt {s : DeliverState} (h : s.isOver = false) (hfits : Fits ip s) (hadvances : Advances s) :
    rounds (deliverStep protocols ip s) < rounds s := by
  cases s with
  | received packet fragments =>
    have hpos : 0 < rounds (received packet fragments) := Nat.succ_pos _
    have hwalk : ∀ nextHeader position,
        rounds (walk ⟨packet, nextHeader, position, fragments⟩) < rounds (received packet fragments) := by
      intro nextHeader position
      rw [rounds, rounds, Walk.octets]
      dsimp only
      omega
    rw [deliverStep.eq_def]
    dsimp only
    split_ifs
    · split
      · exact hwalk _ _
      · exact hpos
    · exact hwalk _ _
  | walk w => exact rounds_walk_lt hfits
  | options w length processedSize => exact rounds_options_lt hfits hadvances
  | delivered | unknownProtocol | dropped | failed => exact absurd h (by simp [isOver])

/-- UDP is the only upper layer. -/
def udpOnly (protocol : UInt8) : Bool := protocol = 17

/-- An IP header in front of a header of the given number. -/
def ipHeader (nextHeader : UInt8) : Ipv6Header := ⟨.ofOctets 0x20 0x01, .ofOctets 0x20 0x02, nextHeader, 64, 0⟩

/-- A destination header with four octets of padding, and three octets for UDP. -/
def padded : List UInt8 := [17, 0, 60, 4, 0, 0, 0, 0, 1, 2, 3]

/-- The rounds for it. -/
def paddedRounds : List DeliverState :=
  [received padded ∅, walk ⟨padded, 60, 0, ∅⟩, options ⟨padded, 17, 0, ∅⟩ 6 0, options ⟨padded, 17, 0, ∅⟩ 6 6,
    walk ⟨padded, 17, 8, ∅⟩]

/-- A routing header of an unknown type, with the length 0, after which it is its own next header. -/
def circular : List UInt8 := [43, 0, 5, 0, 0, 0, 0, 0]

/-- `LocalDeliver` does not end for it: the routing header is processed again in any number of rounds. -/
theorem endless (n : ℕ) : (localDeliver udpOnly (ipHeader 43)).Run (received circular ∅)
    ((received circular ∅, ()) :: List.replicate n (walk ⟨circular, 43, 0, ∅⟩, ())) (walk ⟨circular, 43, 0, ∅⟩) := by
  induction n with
  | zero => exact Machine.Run.nil.snoc ⟨rfl, rfl⟩
  | succ n ih =>
    rw [List.replicate_succ', ← List.cons_append]
    exact ih.snoc ⟨rfl, rfl⟩

end Ns3.Ipv6L3Protocol
