import Mathlib.Data.List.Induction
import Ns3.Network.Iterator

/-!
# A-MSDUs

`MsduStandardAggregator::Aggregate` and `MsduAggregator::Deaggregate`. A packet is its octets, and `GetSize` a
`uint32_t`: there are no packets of 2³² octets.

* `layout` — subframes one behind the other, each but the last made up to a multiple of four octets. The aggregator
  pads what it has before it appends (`layout_concat`); the other side takes the padding off behind each subframe
  (`layout_cons`).
* `eq_layout_of_aggregateAll` — what is aggregated is the layout of the subframes of the MSDUs.
* `deaggregateLoop_layout` — from a layout the loop gets back the subframes that are left.
-/

namespace Ns3

open Lib

namespace Mac48Address

variable (a : Mac48Address)

/-- The six octets of the address. -/
def copyTo : List UInt8 := a.address.toList

/-- An address of six octets. -/
def copyFrom (octets : List UInt8) : Mac48Address := ⟨Vector.ofFn fun i => octets.getD i 0⟩

@[simp] theorem length_copyTo : a.copyTo.length = 6 := a.address.length_toList

theorem copyFrom_copyTo : copyFrom a.copyTo = a := by
  refine Mac48Address.mk.injEq _ _ ▸ Vector.ext fun i hi => ?_
  simp [copyTo]

/-- An address is read. -/
def readFrom : Reader Mac48Address := copyFrom <$> Buffer.Iterator.read 6

theorem reads_readFrom : readFrom.Reads a.copyTo a := by
  have h := (Buffer.Iterator.reads_read a.length_copyTo).map copyFrom
  rwa [copyFrom_copyTo] at h

end Mac48Address

/-! ### The header of a subframe -/

/-- The header of a subframe. -/
structure AmsduSubframeHeader where
  da : Mac48Address
  sa : Mac48Address
  length : UInt16

namespace AmsduSubframeHeader

variable (hdr : AmsduSubframeHeader)

/-- Destination, source, and length. -/
def serialize : List UInt8 :=
  hdr.da.copyTo ++ (hdr.sa.copyTo ++ Buffer.Iterator.writeHtolsbU16 hdr.length)

/-- Destination, source and length are read. -/
def deserialize : Reader AmsduSubframeHeader := do
  let da ← Mac48Address.readFrom
  let sa ← Mac48Address.readFrom
  let length ← Buffer.Iterator.readLsbtohU16
  pure ⟨da, sa, length⟩

@[simp] theorem length_serialize : hdr.serialize.length = 14 := by
  simp [serialize, Buffer.Iterator.writeHtolsbU16]

theorem reads_deserialize : deserialize.Reads hdr.serialize hdr := by
  have hlength := (Buffer.Iterator.reads_readLsbtohU16 hdr.length).bind
    (f := fun length => pure (⟨hdr.da, hdr.sa, length⟩ : AmsduSubframeHeader)) (.pure _)
  rw [List.append_nil] at hlength
  exact (Mac48Address.reads_readFrom hdr.da).bind ((Mac48Address.reads_readFrom hdr.sa).bind hlength)

end AmsduSubframeHeader

/-! ### The aggregator -/

namespace MsduStandardAggregator

/-- The size, in 32 bits. -/
def getSize (packet : List UInt8) : UInt32 := UInt32.ofNat packet.length

/-- `AddAtEnd`: none if there is no such packet. -/
def addAtEnd (packet tail : List UInt8) : Option (List UInt8) :=
  if packet.length + tail.length < 2 ^ 32 then some (packet ++ tail) else none

/-- The octets up to a multiple of four. -/
def calculatePadding (packet : List UInt8) : UInt32 := (4 - getSize packet % 4) % 4

/-- `Aggregate`, with the limit `m_maxAmsduLength`: what it returns and the aggregated packet that it leaves. -/
def aggregate (maxAmsduLength : UInt32) (packet aggregatedPacket : List UInt8) (src dest : Mac48Address) :
    Option (Bool × List UInt8) := do
  let padding := calculatePadding aggregatedPacket
  let actualSize := getSize aggregatedPacket
  if 14 + getSize packet + actualSize + padding ≤ maxAmsduLength then
    let aggregatedPacket ←
      (if padding = 0 then some aggregatedPacket else addAtEnd aggregatedPacket (List.replicate padding.toNat 0))
    let currentHdr : AmsduSubframeHeader := ⟨dest, src, (getSize packet).toUInt16⟩
    let aggregatedPacket ← addAtEnd aggregatedPacket (currentHdr.serialize ++ packet)
    some (true, aggregatedPacket)
  else some (false, aggregatedPacket)

end MsduStandardAggregator

/-! ### The other side -/

namespace MsduAggregator

open MsduStandardAggregator

/-- `RemoveAtStart`: none if the packet has fewer octets. -/
def removeAtStart (packet : List UInt8) (size : ℕ) : Option (List UInt8) :=
  if size ≤ packet.length then some (packet.drop size) else none

/-- `CreateFragment (0, length)`: none if the packet has fewer octets. -/
def createFragment (packet : List UInt8) (length : ℕ) : Option (List UInt8) :=
  if length ≤ packet.length then some (packet.take length) else none

/-- One round of the loop of `Deaggregate`: what it extracts, `deserialized`, and the packet that it leaves. -/
def extract (maxSize deserialized : UInt32) (aggregatedPacket : List UInt8) :
    Option ((List UInt8 × AmsduSubframeHeader) × UInt32 × List UInt8) := do
  let hdr := (AmsduSubframeHeader.deserialize (Cursor.ofList aggregatedPacket)).1
  let aggregatedPacket ← removeAtStart aggregatedPacket 14
  let deserialized := deserialized + 14
  let extractedLength := hdr.length
  let extractedMsdu ← createFragment aggregatedPacket extractedLength.toNat
  let aggregatedPacket ← removeAtStart aggregatedPacket extractedLength.toNat
  let deserialized := deserialized + extractedLength.toUInt32
  -- The sum and the differences are of `int`.
  let padding := (4 - (extractedLength.toNat + 14) % 4) % 4
  if 0 < padding ∧ deserialized < maxSize then do
    let aggregatedPacket ← removeAtStart aggregatedPacket padding
    some ((extractedMsdu, hdr), deserialized + UInt32.ofNat padding, aggregatedPacket)
  else some ((extractedMsdu, hdr), deserialized, aggregatedPacket)

/-- The loop of `Deaggregate`: what it returns, if it ends within the given rounds. -/
def deaggregateLoop (maxSize : UInt32) : ℕ → UInt32 → List UInt8 → List (List UInt8 × AmsduSubframeHeader) →
    Option (List (List UInt8 × AmsduSubframeHeader))
  | 0, deserialized, _, set => if deserialized < maxSize then none else some set
  | rounds + 1, deserialized, aggregatedPacket, set =>
    if deserialized < maxSize then do
      let (packetHdr, deserialized, aggregatedPacket) ← extract maxSize deserialized aggregatedPacket
      deaggregateLoop maxSize rounds deserialized aggregatedPacket (set ++ [packetHdr])
    else some set

/-- `Deaggregate`, within the given rounds: none as well if it takes more octets off than there are. -/
def deaggregate (rounds : ℕ) (aggregatedPacket : List UInt8) : Option (List (List UInt8 × AmsduSubframeHeader)) :=
  deaggregateLoop (getSize aggregatedPacket) rounds 0 aggregatedPacket []

end MsduAggregator

/-! ### Layouts -/

namespace MsduAggregator

open MsduStandardAggregator

/-- What is missing to a multiple of four. -/
def missing (n : ℕ) : ℕ := (4 - n % 4) % 4

/-- Subframes one behind the other, all but the last made up to a multiple of four octets. -/
def layout : List (List UInt8) → List UInt8
  | [] => []
  | [subframe] => subframe
  | subframe :: next :: subframes =>
    subframe ++ (List.replicate (missing subframe.length) 0 ++ layout (next :: subframes))

variable {subframes : List (List UInt8)}

theorem layout_cons (subframe : List UInt8) (h : subframes ≠ []) :
    layout (subframe :: subframes) =
      subframe ++ (List.replicate (missing subframe.length) 0 ++ layout subframes) := by
  cases subframes with
  | nil => exact absurd rfl h
  | cons next subframes => rfl

/-- What comes before has a length that is a multiple of four, and does not count. -/
theorem missing_layout_cons (subframe : List UInt8) (h : subframes ≠ []) :
    missing (layout (subframe :: subframes)).length = missing (layout subframes).length := by
  rw [layout_cons subframe h, List.length_append, List.length_append, List.length_replicate]
  simp only [missing]
  omega

theorem layout_concat (h : subframes ≠ []) (subframe : List UInt8) :
    layout (subframes ++ [subframe]) =
      layout subframes ++ (List.replicate (missing (layout subframes).length) 0 ++ subframe) := by
  induction subframes with
  | nil => exact absurd rfl h
  | cons first subframes ih =>
    cases subframes with
    | nil => rfl
    | cons next subframes =>
      rw [List.cons_append, layout_cons first (List.append_ne_nil_of_left_ne_nil (List.cons_ne_nil _ _) _),
        ih (List.cons_ne_nil _ _), missing_layout_cons first (List.cons_ne_nil _ _),
        layout_cons first (List.cons_ne_nil _ _)]
      simp only [List.append_assoc]

/-! ### What is aggregated -/

/-- An MSDU with its addresses. -/
structure Offered where
  packet : List UInt8
  src : Mac48Address
  dest : Mac48Address

namespace Offered

/-- The header that goes with the MSDU. -/
def header (m : Offered) : AmsduSubframeHeader := ⟨m.dest, m.src, UInt16.ofNat m.packet.length⟩

/-- The subframe of the MSDU. -/
def subframe (m : Offered) : List UInt8 := m.header.serialize ++ m.packet

@[simp] theorem length_subframe (m : Offered) : m.subframe.length = 14 + m.packet.length := by
  rw [subframe, List.length_append, AmsduSubframeHeader.length_serialize]

end Offered

/-- `Aggregate` accepts the MSDUs one after the other: the aggregate that it leaves. -/
def aggregateAll (maxAmsduLength : UInt32) (msdus : List Offered) : Option (List UInt8) :=
  msdus.foldlM
    (fun aggregatedPacket m =>
      match aggregate maxAmsduLength m.packet aggregatedPacket m.src m.dest with
      | some (true, aggregatedPacket) => some aggregatedPacket
      | _ => none)
    []

variable {packet : List UInt8}

theorem toNat_getSize (h : packet.length < 2 ^ 32) : (getSize packet).toNat = packet.length := by
  rw [getSize, UInt32.toNat_ofNat', Nat.mod_eq_of_lt h]

theorem toNat_calculatePadding (h : packet.length < 2 ^ 32) :
    (calculatePadding packet).toNat = missing packet.length := by
  have hsize := toNat_getSize h
  have hmod : (getSize packet % 4).toNat = packet.length % 4 := by
    rw [UInt32.toNat_mod, hsize]
    rfl
  have hsub : (4 - getSize packet % 4).toNat = 4 - packet.length % 4 := by
    have hle : getSize packet % 4 ≤ 4 := by
      rw [UInt32.le_iff_toNat_le, hmod]
      exact Nat.le_of_lt (Nat.mod_lt _ (by decide))
    rw [UInt32.toNat_sub_of_le _ _ hle, hmod]
    rfl
  rw [calculatePadding, UInt32.toNat_mod, hsub]
  rfl

theorem addAtEnd_some {packet tail packet' : List UInt8} (h : addAtEnd packet tail = some packet') :
    packet' = packet ++ tail ∧ packet'.length < 2 ^ 32 := by
  rw [addAtEnd] at h
  split at h
  case isTrue hlt =>
    cases h
    exact ⟨rfl, by rwa [List.length_append]⟩
  case isFalse => cases h

/-- What `Aggregate` leaves when it accepts: the padding and the subframe are appended. -/
theorem aggregate_true {maxAmsduLength : UInt32} {m : Offered} {packet packet' : List UInt8}
    (hlength : packet.length < 2 ^ 32)
    (h : aggregate maxAmsduLength m.packet packet m.src m.dest = some (true, packet')) :
    packet' = packet ++ (List.replicate (missing packet.length) 0 ++ m.subframe) ∧ packet'.length < 2 ^ 32 := by
  have hpadding := toNat_calculatePadding hlength
  rw [aggregate] at h
  split at h
  case isFalse => cases h
  case isTrue =>
    obtain ⟨padded, hpadded, h⟩ := Option.bind_eq_some_iff.mp h
    obtain ⟨all, hall, h⟩ := Option.bind_eq_some_iff.mp h
    obtain rfl : all = packet' := (Prod.mk.inj (Option.some.inj h)).2
    have hpad : padded = packet ++ List.replicate (missing packet.length) 0 := by
      split at hpadded
      case isTrue hzero =>
        rw [hzero] at hpadding
        rw [← hpadding, ← Option.some.inj hpadded]
        simp
      case isFalse => rw [(addAtEnd_some hpadded).1, hpadding]
    obtain ⟨hall, hlt⟩ := addAtEnd_some hall
    refine ⟨?_, hlt⟩
    have hheader : (⟨m.dest, m.src, (getSize m.packet).toUInt16⟩ : AmsduSubframeHeader) = m.header := by
      rw [Offered.header, getSize, UInt32.toUInt16_ofNat']
    rw [hall, hpad, hheader, Offered.subframe, List.append_assoc]

/-- What is aggregated is a layout. -/
theorem eq_layout_of_aggregateAll {maxAmsduLength : UInt32} {msdus : List Offered}
    (h : aggregateAll maxAmsduLength msdus = some packet) :
    packet = layout (msdus.map Offered.subframe) ∧ packet.length < 2 ^ 32 := by
  induction msdus using List.reverseRecOn generalizing packet with
  | nil =>
    cases h
    exact ⟨rfl, by decide⟩
  | append_singleton msdus m ih =>
    rw [aggregateAll, List.foldlM_append] at h
    obtain ⟨before, hbefore, h⟩ := Option.bind_eq_some_iff.mp h
    obtain ⟨hlayout, hlt⟩ := ih hbefore
    obtain ⟨after, hafter, h⟩ := Option.bind_eq_some_iff.mp h
    cases h
    dsimp only at hafter
    split at hafter
    case h_2 => cases hafter
    case h_1 accepted haccepted =>
      cases hafter
      obtain ⟨heq, hlt'⟩ := aggregate_true hlt haccepted
      refine ⟨?_, hlt'⟩
      rw [heq, hlayout, List.map_append, List.map_singleton]
      cases msdus with
      | nil => rfl
      | cons first msdus => exact (layout_concat (List.cons_ne_nil _ _) _).symm

/-! ### What is taken apart -/

theorem removeAtStart_append (bytes rest : List UInt8) {n : ℕ} (h : bytes.length = n) :
    removeAtStart (bytes ++ rest) n = some rest := by
  rw [removeAtStart, if_pos (by rw [List.length_append]; omega), ← h, List.drop_left]

theorem createFragment_append (bytes rest : List UInt8) {n : ℕ} (h : bytes.length = n) :
    createFragment (bytes ++ rest) n = some bytes := by
  rw [createFragment, if_pos (by rw [List.length_append]; omega), ← h, List.take_left]

theorem deserialize_subframe (m : Offered) (rest : List UInt8) :
    (AmsduSubframeHeader.deserialize (Cursor.ofList (m.subframe ++ rest))).1 = m.header := by
  have hat := Cursor.at_ofList (m.header.serialize ++ (m.packet ++ rest))
  rw [Offered.subframe, List.append_assoc, AmsduSubframeHeader.reads_deserialize _ _ (Cursor.at_append_iff.mp hat).1]

theorem toNat_add_of_le {a b c : UInt32} {n : ℕ} (h : a.toNat + n ≤ c.toNat) (hb : b.toNat = n) :
    (a + b).toNat = a.toNat + n := by
  rw [UInt32.toNat_add, hb, Nat.mod_eq_of_lt (Nat.lt_of_le_of_lt h c.toNat_lt)]

/-- A round takes the first subframe off, and the padding behind it if there is more. -/
theorem extract_append {maxSize deserialized : UInt32} {m : Offered} {rest : List UInt8}
    (hm : m.packet.length ≤ 65535)
    (hsize : deserialized.toNat + (m.subframe.length + rest.length) = maxSize.toNat) :
    ∃ removed : UInt32, removed.toNat = deserialized.toNat + 14 + m.packet.length ∧
      extract maxSize deserialized (m.subframe ++ rest) =
        if 0 < missing m.subframe.length ∧ 0 < rest.length then do
          let rest ← removeAtStart rest (missing m.subframe.length)
          some ((m.packet, m.header), removed + UInt32.ofNat (missing m.subframe.length), rest)
        else some ((m.packet, m.header), removed, rest) := by
  rw [Offered.length_subframe] at hsize
  have hheader : m.header.length.toNat = m.packet.length := by
    rw [Offered.header, UInt16.toNat_ofNat', Nat.mod_eq_of_lt (by omega)]
  have hfirst : (deserialized + 14).toNat = deserialized.toNat + 14 := toNat_add_of_le (c := maxSize) (by omega) rfl
  have hremoved : (deserialized + 14 + m.header.length.toUInt32).toNat = deserialized.toNat + 14 + m.packet.length := by
    have hlength : m.header.length.toUInt32.toNat = m.packet.length := by rw [UInt16.toNat_toUInt32, hheader]
    rw [toNat_add_of_le (c := maxSize) (by omega) hlength, hfirst]
  have hmore : deserialized + 14 + m.header.length.toUInt32 < maxSize ↔ 0 < rest.length := by
    rw [UInt32.lt_iff_toNat_lt, hremoved]
    omega
  have hpadding : (4 - (m.packet.length + 14) % 4) % 4 = missing m.subframe.length := by
    rw [Offered.length_subframe, Nat.add_comm 14, missing]
  refine ⟨_, hremoved, ?_⟩
  rw [extract, deserialize_subframe, Offered.subframe, List.append_assoc,
    removeAtStart_append _ _ m.header.length_serialize, Option.bind_eq_bind, Option.bind_some]
  dsimp only
  rw [hheader, createFragment_append _ _ rfl, Option.bind_some, removeAtStart_append _ _ rfl, Option.bind_some]
  simp only [hmore, hpadding, Offered.subframe]

/-- A round leaves the layout of the subframes behind the first. -/
theorem extract_layout {maxSize deserialized : UInt32} {m : Offered} (hm : m.packet.length ≤ 65535)
    (hsize : deserialized.toNat + (layout (m.subframe :: subframes)).length = maxSize.toNat) :
    ∃ deserialized' : UInt32,
      extract maxSize deserialized (layout (m.subframe :: subframes)) =
        some ((m.packet, m.header), deserialized', layout subframes) ∧
      deserialized'.toNat + (layout subframes).length = maxSize.toNat := by
  cases subframes with
  | nil =>
    have hlayout : layout [m.subframe] = m.subframe ++ [] := (List.append_nil _).symm
    rw [hlayout, List.length_append] at hsize
    obtain ⟨removed, hremoved, hextract⟩ := extract_append hm hsize
    refine ⟨removed, ?_, ?_⟩
    · rw [hlayout, hextract, if_neg fun h => absurd h.2 (Nat.lt_irrefl 0)]
      rfl
    · rw [layout, hremoved, ← hsize, Offered.length_subframe, Nat.add_assoc deserialized.toNat]
      rfl
  | cons next subframes =>
    rw [layout_cons _ (List.cons_ne_nil _ _)] at hsize ⊢
    rw [List.length_append] at hsize
    obtain ⟨removed, hremoved, hextract⟩ := extract_append hm hsize
    rw [List.length_append, List.length_replicate] at hsize
    rw [hextract]
    by_cases hmissing : 0 < missing m.subframe.length
    · have hlt : missing m.subframe.length < 4 := Nat.mod_lt _ (by decide)
      have hlength := m.length_subframe
      have hadd : (removed + UInt32.ofNat (missing m.subframe.length)).toNat =
          removed.toNat + missing m.subframe.length :=
        toNat_add_of_le (c := maxSize) (by omega) (by rw [UInt32.toNat_ofNat', Nat.mod_eq_of_lt (by omega)])
      refine ⟨removed + UInt32.ofNat (missing m.subframe.length), ?_, ?_⟩
      · rw [if_pos ⟨hmissing, by rw [List.length_append, List.length_replicate]; omega⟩,
          removeAtStart_append _ _ List.length_replicate]
        rfl
      · omega
    · obtain hzero : missing m.subframe.length = 0 := Nat.eq_zero_of_not_pos hmissing
      refine ⟨removed, ?_, ?_⟩
      · rw [if_neg fun h => hmissing h.1, hzero, List.replicate_zero, List.nil_append]
      · rw [hremoved, ← hsize, hzero, Offered.length_subframe]
        omega

theorem length_layout_pos (m : Offered) (subframes : List (List UInt8)) :
    0 < (layout (m.subframe :: subframes)).length := by
  have hpos : 0 < m.subframe.length := by
    rw [Offered.length_subframe]
    omega
  cases subframes with
  | nil => exact hpos
  | cons next subframes =>
    rw [layout, List.length_append]
    exact Nat.add_pos_left hpos _

/-- The loop takes a layout apart: with what it has removed, it comes to the size at the end of the last subframe. -/
theorem deaggregateLoop_layout {maxSize : UInt32} {msdus : List Offered}
    (hlength : ∀ m ∈ msdus, m.packet.length ≤ 65535) {deserialized : UInt32}
    (hsize : deserialized.toNat + (layout (msdus.map Offered.subframe)).length = maxSize.toNat)
    (set : List (List UInt8 × AmsduSubframeHeader)) :
    deaggregateLoop maxSize msdus.length deserialized (layout (msdus.map Offered.subframe)) set =
      some (set ++ msdus.map fun m => (m.packet, m.header)) := by
  induction msdus generalizing deserialized set with
  | nil =>
    have hend : ¬deserialized < maxSize := by
      rw [UInt32.lt_iff_toNat_lt, ← hsize]
      exact Nat.lt_irrefl _
    rw [List.length_nil, deaggregateLoop, if_neg hend, List.map_nil, List.append_nil]
  | cons m msdus ih =>
    have hm : m.packet.length ≤ 65535 := hlength m List.mem_cons_self
    obtain ⟨deserialized', hextract, hsize'⟩ := extract_layout hm hsize
    have hbegin : deserialized < maxSize := by
      rw [UInt32.lt_iff_toNat_lt, ← hsize]
      exact Nat.lt_add_of_pos_right (length_layout_pos _ _)
    rw [List.length_cons, deaggregateLoop, if_pos hbegin, List.map_cons, hextract, Option.bind_eq_bind,
      Option.bind_some]
    dsimp only
    rw [ih (fun m' hm' => hlength m' (List.mem_cons_of_mem _ hm')) hsize', List.append_assoc]
    rfl

/-- `Deaggregate` gets back the MSDUs that `Aggregate` has accepted, with their addresses and in order. It ends, and
takes off no more octets than there are. -/
theorem deaggregate_aggregateAll {maxAmsduLength : UInt32} {msdus : List Offered} {packet : List UInt8}
    (hlength : ∀ m ∈ msdus, m.packet.length ≤ 65535)
    (h : aggregateAll maxAmsduLength msdus = some packet) :
    ∃ rounds, deaggregate rounds packet = some (msdus.map fun m => (m.packet, m.header)) := by
  obtain ⟨rfl, hlt⟩ := eq_layout_of_aggregateAll h
  refine ⟨msdus.length, ?_⟩
  rw [deaggregate, deaggregateLoop_layout hlength ?_, List.nil_append]
  rw [toNat_getSize hlt]
  exact Nat.zero_add _

/-- Three MSDUs, of which the second is empty: the first two are padded. -/
theorem deaggregate_aggregateAll_three :
    ∃ rounds, deaggregate rounds
        ([0, 0, 0, 0, 0, 2, 0, 0, 0, 0, 0, 1, 3, 0, 7, 8, 9, 0, 0, 0] ++
          [0, 0, 0, 0, 0, 3, 0, 0, 0, 0, 0, 1, 0, 0, 0, 0] ++
          [0, 0, 0, 0, 0, 2, 0, 0, 0, 0, 0, 4, 1, 0, 5]) =
      some [([7, 8, 9], ⟨.ofOctet 2, .ofOctet 1, 3⟩), ([], ⟨.ofOctet 3, .ofOctet 1, 0⟩),
        ([5], ⟨.ofOctet 2, .ofOctet 4, 1⟩)] :=
  @deaggregate_aggregateAll 7935
    [⟨[7, 8, 9], .ofOctet 1, .ofOctet 2⟩, ⟨[], .ofOctet 1, .ofOctet 3⟩, ⟨[5], .ofOctet 4, .ofOctet 2⟩] _
    (by decide) (by decide +kernel)

end MsduAggregator

end Ns3
